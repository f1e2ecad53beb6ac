import MsSecurity.Python.Text

/-!
# Decimal digits

`int` and the `\d` of a pattern take the decimal digits of every script, not only the ten of ASCII.
Each script has its ten in a row, from its zero.
-/

namespace MsSecurity

/-- The zeros of the scripts that have decimal digits. -/
def decimalZeros : List ℕ :=
  [0x30, 0x660, 0x6f0, 0x7c0, 0x966, 0x9e6, 0xa66, 0xae6, 0xb66, 0xbe6, 0xc66, 0xce6, 0xd66, 0xde6,
    0xe50, 0xed0, 0xf20, 0x1040, 0x1090, 0x17e0, 0x1810, 0x1946, 0x19d0, 0x1a80, 0x1a90, 0x1b50,
    0x1bb0, 0x1c40, 0x1c50, 0xa620, 0xa8d0, 0xa900, 0xa9d0, 0xa9f0, 0xaa50, 0xabf0, 0xff10,
    0x104a0, 0x10d30, 0x11066, 0x110f0, 0x11136, 0x111d0, 0x112f0, 0x11450, 0x114d0, 0x11650,
    0x116c0, 0x11730, 0x118e0, 0x11950, 0x11c50, 0x11d50, 0x11da0, 0x16a60, 0x16b50, 0x1d7ce,
    0x1d7d8, 0x1d7e2, 0x1d7ec, 0x1d7f6, 0x1e140, 0x1e2f0, 0x1e950, 0x1fbf0]

/-- `unicodedata.decimal(c)`. -/
def decimalDigit? (c : Char) : Option ℕ :=
  (decimalZeros.find? fun first ↦ first ≤ c.toNat ∧ c.toNat < first + 10).map fun first ↦
    c.toNat - first

theorem toNat_of_isDigit {c : Char} (h : c.isDigit) : 48 ≤ c.toNat ∧ c.toNat < 58 := by
  rw [Char.isDigit, Bool.and_eq_true, decide_eq_true_eq, decide_eq_true_eq] at h
  exact ⟨h.1, Nat.lt_succ_of_le h.2⟩

/-- The ten digits of ASCII come first. -/
theorem decimalDigit?_of_isDigit {c : Char} (h : c.isDigit) :
    decimalDigit? c = some (c.toNat - 48) := by
  have hc := toNat_of_isDigit h
  rw [decimalDigit?, decimalZeros, List.find?_cons_of_pos (by simpa using hc)]
  rfl

theorem decimalDigit?_lt {c : Char} {d : ℕ} (h : decimalDigit? c = some d) : d < 10 := by
  obtain ⟨first, hfirst, rfl⟩ := Option.map_eq_some_iff.mp h
  have hc := List.find?_some hfirst
  simp only [decide_eq_true_eq] at hc
  omega

/-- The value of digits that may be grouped by single underscores, after the digits so far. -/
def groupedDigits : ℕ → Bool → List Char → Option ℕ
  | value, afterDigit, [] => if afterDigit then some value else none
  | value, afterDigit, c :: rest =>
    match decimalDigit? c with
    | some d => groupedDigits (10 * value + d) true rest
    | none => if c = '_' ∧ afterDigit then groupedDigits value false rest else none

/-- The same, with a sign in front. -/
def signedDigits : List Char → Option ℤ
  | '-' :: digits => (groupedDigits 0 false digits).map fun n ↦ -(n : ℤ)
  | '+' :: digits => (groupedDigits 0 false digits).map fun n ↦ (n : ℤ)
  | digits => (groupedDigits 0 false digits).map fun n ↦ (n : ℤ)

/-- `int(text)`. -/
def parseInt (text : String) : Except PyError ℤ :=
  match signedDigits (strip text).toList with
  | some n => .ok n
  | none => .error (.valueError "invalid literal for int() with base 10")

/-! ## Numerals of ASCII digits -/

/-- The value of ASCII digits. -/
def digitsValue (digits : List Char) : ℕ := Nat.ofDigitChars 10 digits 0

theorem groupedDigits_of_isDigit {digits : List Char} (h : ∀ c ∈ digits, c.isDigit) (n : ℕ) :
    groupedDigits n true digits = some (Nat.ofDigitChars 10 digits n) := by
  induction digits generalizing n with
  | nil => rfl
  | cons c digits ih =>
    rw [List.forall_mem_cons] at h
    rw [groupedDigits, decimalDigit?_of_isDigit h.1, Nat.ofDigitChars_cons]
    exact ih h.2 _

theorem digitsValue_dropWhile (digits : List Char) :
    digitsValue (digits.dropWhile (· = '0')) = digitsValue digits := by
  induction digits with
  | nil => rfl
  | cons c digits ih =>
    by_cases hc : c = '0'
    · subst hc
      rw [List.dropWhile_cons_of_pos (by decide), ih, digitsValue, digitsValue,
        Nat.ofDigitChars_cons]
      rfl
    · rw [List.dropWhile_cons_of_neg (by simpa using hc)]

theorem length_dropWhile_le {digits : List Char} {n : ℕ} (h : ∀ c ∈ digits, c.isDigit)
    (hn : digitsValue digits < 10 ^ n) : (digits.dropWhile (· = '0')).length ≤ n := by
  rw [← digitsValue_dropWhile] at hn
  cases hdrop : digits.dropWhile (· = '0') with
  | nil => exact Nat.zero_le n
  | cons c rest =>
    have hc : c ≠ '0' := by
      have hhead := List.head?_dropWhile_not (p := fun c : Char ↦ decide (c = '0')) (l := digits)
      rw [hdrop] at hhead
      simpa using hhead
    have hdigit : c.isDigit :=
      h c ((List.dropWhile_suffix _).subset (hdrop ▸ List.mem_cons_self))
    have hpos : 1 ≤ c.toNat - 48 := by
      have hne : c.toNat ≠ 48 := fun heq ↦ hc (Char.toNat_inj.mp heq)
      have hle := (toNat_of_isDigit hdigit).1
      omega
    rw [hdrop, digitsValue, Nat.ofDigitChars_cons, Nat.ofDigitChars_eq_ofDigitChars_zero] at hn
    have hlt : 10 ^ rest.length < 10 ^ n := by
      refine lt_of_le_of_lt ?_ hn
      calc 10 ^ rest.length ≤ 10 ^ rest.length * (10 * 0 + (c.toNat - 48)) :=
            Nat.le_mul_of_pos_right _ (by omega)
        _ ≤ _ := Nat.le_add_right _ _
    exact (Nat.pow_lt_pow_iff_right (by decide)).mp hlt

theorem isSpace_of_isDigit {c : Char} (h : c.isDigit) : isSpace c = false := by
  have hall : ∀ n < 58, 48 ≤ n → isSpace (Char.ofNat n) = false := by decide
  rw [← Char.ofNat_toNat c]
  exact hall c.toNat (toNat_of_isDigit h).2 (toNat_of_isDigit h).1

theorem strip_of_forall_not_isSpace {s : String} (h : ∀ c ∈ s.toList, isSpace c = false) :
    strip s = s := by
  have hdrop {text : List Char} (htext : ∀ c ∈ text, isSpace c = false) :
      text.dropWhile isSpace = text := by
    cases text with
    | nil => rfl
    | cons c text => rw [List.dropWhile_cons_of_neg (by simp [htext c List.mem_cons_self])]
  rw [strip, hdrop h, hdrop fun c hc ↦ h c (List.mem_reverse.mp hc), List.reverse_reverse,
    String.ofList_toList]

theorem parseInt_of_isDigit {text : String} (hne : text ≠ "") (h : ∀ c ∈ text.toList, c.isDigit) :
    parseInt text = .ok (digitsValue text.toList) := by
  have hstrip := strip_of_forall_not_isSpace fun c hc ↦ isSpace_of_isDigit (h c hc)
  have hsome : groupedDigits 0 false text.toList = some (digitsValue text.toList) := by
    cases htext : text.toList with
    | nil => exact absurd (String.toList_eq_nil_iff.mp htext) hne
    | cons c rest =>
      rw [htext, List.forall_mem_cons] at h
      rw [groupedDigits, decimalDigit?_of_isDigit h.1]
      exact groupedDigits_of_isDigit h.2 _
  have hsigned : signedDigits text.toList = some (digitsValue text.toList : ℤ) := by
    rw [signedDigits, hsome]
    · rfl
    · intro digits heq
      exact absurd (h '-' (heq ▸ List.mem_cons_self)) (by decide)
    · intro digits heq
      exact absurd (h '+' (heq ▸ List.mem_cons_self)) (by decide)
  rw [parseInt, hstrip, hsigned]

end MsSecurity
