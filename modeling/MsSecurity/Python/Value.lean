import Mathlib.Data.List.Infix
import Mathlib.Data.Rat.Defs
import Mathlib.Data.String.Basic
import Mathlib.Tactic.Common

/-!
# The Python values the add-on computes with

Records arrive as parsed JSON, settings as optional strings, and every failure is an exception that
some caller catches or lets through. This file fixes those three things once: `Json` with Python's
truth value and iteration, `Dict` with `get` and subscription, and `PyError` with the one
distinction the handlers in the source make, between subclasses of `Exception` and `SystemExit`.

Floats are kept as the rational they denote, since no collector does arithmetic on one; only their
truth value and their equality with an integer are ever observed.
-/

namespace MsSecurity

/-! ## Exceptions -/

/-- The exceptions the modelled functions raise or let through. -/
inductive PyError
  | valueError (msg : String)
  | typeError
  | keyError (key : String)
  | indexError
  | attributeError
  | runtimeError (msg : String)
  /-- An HTTP or REST call that failed; `status` is the response status. -/
  | httpError (status : ℕ)
  | restError (status : ℕ) (msg : String)
  /-- `TaExecutionException` built from a text. -/
  | taExecution (msg : String) (exitCode : ℤ)
  /-- `TaExecutionException` wrapped around another exception. -/
  | taExecutionFrom (e : PyError) (exitCode : ℤ)
  | systemExit (code : ℤ)
  | other (name : String)
  deriving DecidableEq, Repr

/-- Whether `except Exception` catches it. `sys.exit` raises `SystemExit`, which it does not. -/
def PyError.isException : PyError → Bool
  | .systemExit _ => false
  | _ => true

theorem bind_eq_ok_iff {ε α β : Type} {x : Except ε α} {f : α → Except ε β} {b : β} :
    (x >>= f) = .ok b ↔ ∃ a, x = .ok a ∧ f a = .ok b := by
  cases x with
  | error e => simp [bind, Except.bind]
  | ok a => simp [bind, Except.bind]

theorem bind_eq_error_iff {ε α β : Type} {x : Except ε α} {f : α → Except ε β} {e : ε} :
    (x >>= f) = .error e ↔ x = .error e ∨ ∃ a, x = .ok a ∧ f a = .error e := by
  cases x with
  | error e' => simp [bind, Except.bind]
  | ok a => simp [bind, Except.bind]

/-- What a computation raises is an `Exception`. -/
def RaisesException {α : Type} (x : Except PyError α) : Prop :=
  ∀ e, x = .error e → e.isException = true

theorem raisesException_ok {α : Type} (a : α) : RaisesException (.ok a) := fun _ h ↦ nomatch h

theorem raisesException_error {α : Type} {e : PyError} (h : e.isException = true) :
    RaisesException (.error e : Except PyError α) := by
  rintro _ ⟨⟩
  exact h

theorem RaisesException.bind {α β : Type} {x : Except PyError α} {f : α → Except PyError β}
    (hx : RaisesException x) (hf : ∀ a, RaisesException (f a)) : RaisesException (x >>= f) := by
  cases x with
  | ok a => exact hf a
  | error e => exact raisesException_error (hx e rfl)

/-! ## JSON -/

/-- A Python float, as the value it denotes. -/
inductive PyFloat
  | finite (q : ℚ)
  | infinite (negative : Bool)
  | nan
  deriving DecidableEq

/-- What `json.loads` returns. -/
inductive Json
  | null
  | bool (b : Bool)
  | int (n : ℤ)
  | float (x : PyFloat)
  | str (s : String)
  | arr (items : List Json)
  | obj (fields : List (String × Json))
  deriving Inhabited

/-- A Python dictionary with string keys, in insertion order. -/
abbrev Dict (α : Type) := List (String × α)

namespace Dict

variable {α : Type}

/-- `d.get(key)`. -/
def get (d : Dict α) (key : String) : Option α := List.lookup key d

/-- `d[key]`. -/
def getItem (d : Dict α) (key : String) : Except PyError α :=
  match d.get key with
  | some v => .ok v
  | none => .error (.keyError key)

/-- `del d[key]`, for a key that is present. -/
def del (d : Dict α) (key : String) : Dict α := d.filter fun p ↦ p.1 ≠ key

theorem get_filter (f : String → Bool) (d : Dict α) (key : String) :
    get (d.filter fun p ↦ f p.1) key = if f key then d.get key else none := by
  induction d with
  | nil => exact (ite_self none).symm
  | cons p d ih =>
    obtain ⟨k, v⟩ := p
    rw [get, get] at ih
    rw [get, List.filter_cons, get, List.lookup_cons]
    by_cases hk : key = k
    · subst hk
      by_cases hf : f key = true
      · simp [hf]
      · rw [if_neg hf, ih, if_neg hf, if_neg hf]
    · by_cases hf : f k = true
      · simpa [hf, List.lookup_cons, beq_false_of_ne hk] using ih
      · simpa [hf, beq_false_of_ne hk] using ih

theorem get_del (d : Dict α) (key : String) : get (d.del key) key = none := by
  have h := get_filter (fun k ↦ decide (k ≠ key)) d key
  rw [if_neg (by simp)] at h
  exact h

theorem getItem_raisesException (d : Dict α) (key : String) : RaisesException (d.getItem key) := by
  rw [getItem]
  cases d.get key with
  | none => exact raisesException_error rfl
  | some v => exact raisesException_ok v

theorem getItem_eq_ok_iff {d : Dict α} {key : String} {v : α} :
    d.getItem key = .ok v ↔ d.get key = some v := by
  rw [getItem]
  cases d.get key <;> simp

end Dict

namespace Json

/-- A parsed JSON object. -/
abbrev Object := Dict Json

/-- `bool(v)`. -/
def truthy : Json → Bool
  | null => false
  | bool b => b
  | int n => n ≠ 0
  | float (.finite q) => q ≠ 0
  | float _ => true
  | str s => s ≠ ""
  | arr items => !items.isEmpty
  | obj fields => !fields.isEmpty

/-- The value itself, when it is true. -/
def truthy? (v : Json) : Option Json := if v.truthy then some v else none

/-- `a or b`. -/
def or (a b : Json) : Json := if a.truthy then a else b

/-- `d.get(key)` on a parsed object, where `None` and JSON `null` are one value. -/
def Object.getD (d : Object) (key : String) : Json := (d.get key).getD .null

/-- What `for x in v` runs over: a dictionary yields its keys, a string its characters. -/
def iter : Json → Except PyError (List Json)
  | arr items => .ok items
  | obj fields => .ok (fields.map fun p ↦ str p.1)
  | str s => .ok (s.toList.map fun c ↦ str (String.ofList [c]))
  | _ => .error .typeError

/-- `v[0]`. -/
def item0 : Json → Except PyError Json
  | arr (v :: _) => .ok v
  | arr [] => .error .indexError
  | str s =>
    match s.toList with
    | c :: _ => .ok (str (String.ofList [c]))
    | [] => .error .indexError
  | obj _ => .error (.keyError "0")
  | _ => .error .typeError

/-- `v == n` for an integer `n`; a float is equal to the integer it denotes, a boolean to 0 or 1. -/
def eqInt (v : Json) (n : ℤ) : Bool :=
  match v with
  | int m => m = n
  | float (.finite q) => q = n
  | bool b => (if b then 1 else 0) = n
  | _ => false

/-- `v == s` for a string `s`. -/
def eqStr (v : Json) (s : String) : Bool :=
  match v with
  | str t => t = s
  | _ => false

/-- `v[key]` for a string key. -/
def item (v : Json) (key : String) : Except PyError Json :=
  match v with
  | obj fields => Dict.getItem fields key
  | _ => .error .typeError

/-- `key in v` for a string key: a key of a dictionary, an element of a list, a part of a text. -/
def contains (v : Json) (key : String) : Except PyError Bool :=
  match v with
  | obj fields => .ok (Dict.get fields key).isSome
  | arr items => .ok (items.any fun item ↦ item.eqStr key)
  | str s => .ok (decide (key.toList <:+: s.toList))
  | _ => .error .typeError

theorem eqStr_eq_true_iff {v : Json} {s : String} : v.eqStr s = true ↔ v = str s := by
  cases v <;> simp [eqStr]

theorem item_eq_ok_iff {v w : Json} {key : String} :
    v.item key = .ok w ↔ ∃ fields, v = obj fields ∧ Dict.get fields key = some w := by
  cases v with
  | obj fields => simp [item, Dict.getItem_eq_ok_iff]
  | _ => simp [item]

theorem item_raisesException (v : Json) (key : String) : RaisesException (v.item key) := by
  cases v with
  | obj fields => exact Dict.getItem_raisesException fields key
  | _ => exact raisesException_error rfl

theorem contains_raisesException (v : Json) (key : String) : RaisesException (v.contains key) := by
  cases v with
  | obj fields => exact raisesException_ok _
  | arr items => exact raisesException_ok _
  | str s => exact raisesException_ok _
  | _ => exact raisesException_error rfl

theorem iter_raisesException (v : Json) : RaisesException v.iter := by
  cases v with
  | obj fields => exact raisesException_ok _
  | arr items => exact raisesException_ok _
  | str s => exact raisesException_ok _
  | _ => exact raisesException_error rfl

@[simp] theorem truthy_str (s : String) : (str s).truthy = decide (s ≠ "") := rfl

@[simp] theorem truthy_null : null.truthy = false := rfl

theorem or_of_truthy {a : Json} (h : a.truthy = true) (b : Json) : a.or b = a := if_pos h

theorem or_of_not_truthy {a : Json} (h : a.truthy = false) (b : Json) : a.or b = b := by
  rw [or, if_neg (by simp [h])]

end Json

/-- A value read as a dictionary; `.get` is an attribute of nothing else. -/
def asObject : Json → Except PyError Json.Object
  | .obj fields => .ok fields
  | _ => .error .attributeError

theorem asObject_eq_ok_iff {v : Json} {fields : Json.Object} :
    asObject v = .ok fields ↔ v = .obj fields := by
  cases v <;> simp [asObject]

theorem asObject_raisesException (v : Json) : RaisesException (asObject v) := by
  cases v with
  | obj fields => exact raisesException_ok _
  | _ => exact raisesException_error rfl

/-! ## Optional strings

Settings and search-result columns are `None` or a string; both `None` and `""` are false. -/

/-- `bool(v)` for an optional string. -/
def truthyStr (v : Option String) : Bool :=
  match v with
  | some s => s ≠ ""
  | none => false

/-- `a or b` for optional strings. -/
def orStr (a b : Option String) : Option String := if truthyStr a then a else b

@[simp] theorem truthyStr_none : truthyStr none = false := rfl

@[simp] theorem truthyStr_some (s : String) : truthyStr (some s) = decide (s ≠ "") := rfl

/-! ## Numerals -/

/-- Decimal numerals are distinct. -/
theorem toString_nat_injective : Function.Injective fun n : ℕ ↦ toString n := by
  intro j k h
  have hdigits : (Nat.repr j).toList = (Nat.repr k).toList := congrArg String.toList h
  rw [Nat.toList_repr, Nat.toList_repr] at hdigits
  calc j = Nat.ofDigitChars 10 (Nat.toDigits 10 j) 0 :=
        (Nat.ofDigitChars_toDigits (by decide) le_rfl).symm
    _ = Nat.ofDigitChars 10 (Nat.toDigits 10 k) 0 := by rw [hdigits]
    _ = k := Nat.ofDigitChars_toDigits (by decide) le_rfl

end MsSecurity
