import MsSecurity.Python.Dictionary
import MsSecurity.Python.UrlPath
import MsSecurity.Python.Value

/-!
# Dictionaries of strings as JSON

`json.dumps` writes ASCII only: every other character is an escape of its UTF-16 code units.
`json.loads` reads the escapes back, joins the two halves of a surrogate pair, and skips whitespace
between the tokens.

* `JsonText.loads_dumps`: what is written is read.
-/

namespace MsSecurity

namespace JsonText

/-! ## Writing -/

/-- A digit of `'%04x'`. -/
def hexLower (n : ℕ) : Char := if n < 10 then Char.ofNat (48 + n) else Char.ofNat (87 + n)

/-- The escape of a code unit. -/
def unicodeEscape (n : ℕ) : List Char :=
  ['\\', 'u', hexLower (n / 4096 % 16), hexLower (n / 256 % 16), hexLower (n / 16 % 16),
    hexLower (n % 16)]

/-- The code units of a character. -/
def codeUnits (c : Char) : List ℕ :=
  if c.toNat < 0x10000 then [c.toNat]
  else [0xd800 + (c.toNat - 0x10000) / 0x400, 0xdc00 + (c.toNat - 0x10000) % 0x400]

def escapeChar (c : Char) : List Char :=
  if c = '"' then ['\\', '"']
  else if c = '\\' then ['\\', '\\']
  else if c = '\n' then ['\\', 'n']
  else if c = '\r' then ['\\', 'r']
  else if c = '\t' then ['\\', 't']
  else if c = '\x0c' then ['\\', 'f']
  else if c = '\x08' then ['\\', 'b']
  else if ' ' ≤ c ∧ c ≤ '~' then [c]
  else (codeUnits c).flatMap unicodeEscape

def dumpsStr (s : String) : List Char := '"' :: s.toList.flatMap escapeChar ++ ['"']

def dumpsItem (item : String × String) : List Char :=
  dumpsStr item.1 ++ ':' :: ' ' :: dumpsStr item.2

/-- The items and the closing brace. -/
def dumpsItems : List (String × String) → List Char
  | [] => ['}']
  | [item] => dumpsItem item ++ ['}']
  | item :: items => dumpsItem item ++ ',' :: ' ' :: dumpsItems items

/-- `json.dumps(d)`. -/
@[irreducible] def dumps (d : Dict String) : String := String.ofList ('{' :: dumpsItems d)

/-! ## Reading -/

/-- The value of four hexadecimal digits. -/
def hexFour (a b c d : Char) : Option ℕ := do
  let a ← hexValue a
  let b ← hexValue b
  let c ← hexValue c
  let d ← hexValue d
  return 4096 * a + 256 * b + 16 * c + d

/-- What a character after a backslash stands for. -/
def escapeValue (c : Char) : Option ℕ :=
  if c = '"' ∨ c = '\\' ∨ c = '/' then some c.toNat
  else if c = 'n' then some 10
  else if c = 'r' then some 13
  else if c = 't' then some 9
  else if c = 'f' then some 12
  else if c = 'b' then some 8
  else none

/-- The first code unit of a string, or code point if it is not escaped, and the rest. -/
def scanUnit : List Char → Option (ℕ × List Char)
  | '\\' :: 'u' :: a :: b :: c :: d :: rest => (hexFour a b c d).map fun unit ↦ (unit, rest)
  | '\\' :: c :: rest => (escapeValue c).map fun unit ↦ (unit, rest)
  | c :: rest => if c.toNat < 0x20 ∨ c = '\\' then none else some (c.toNat, rest)
  | [] => none

/-- The code units up to the closing quotation mark. -/
def scanUnits : ℕ → List Char → Option (List ℕ × List Char)
  | 0, _ => none
  | fuel + 1, text =>
    match text with
    | '"' :: rest => some ([], rest)
    | text => do
      let (unit, rest) ← scanUnit text
      let (units, rest) ← scanUnits fuel rest
      return (unit :: units, rest)

def isHigh (unit : ℕ) : Bool := 0xd800 ≤ unit ∧ unit < 0xdc00

def isLow (unit : ℕ) : Bool := 0xdc00 ≤ unit ∧ unit < 0xe000

/-- Surrogate pairs are joined. A half alone is no character. -/
def joinUnits : List ℕ → Option (List Char)
  | [] => some []
  | unit :: units =>
    if isHigh unit then
      match units with
      | low :: rest =>
        if isLow low then
          (Char.ofNat (0x10000 + (unit - 0xd800) * 0x400 + (low - 0xdc00)) :: ·) <$> joinUnits rest
        else none
      | [] => none
    else if isLow unit then none
    else (Char.ofNat unit :: ·) <$> joinUnits units

def skipSpace (text : List Char) : List Char :=
  text.dropWhile (· ∈ [' ', '\t', '\n', '\r'])

/-- What follows the character, if it is next. -/
def expect (c : Char) : List Char → Option (List Char)
  | [] => none
  | next :: rest => if next = c then some rest else none

def scanStr (fuel : ℕ) (text : List Char) : Option (String × List Char) := do
  let (units, rest) ← scanUnits fuel (← expect '"' text)
  let chars ← joinUnits units
  return (String.ofList chars, rest)

/-- The items from a key on, and what follows the closing brace. -/
def scanItems : ℕ → List Char → Option (List (String × String) × List Char)
  | 0, _ => none
  | fuel + 1, text => do
    let (key, rest) ← scanStr fuel text
    let rest ← expect ':' (skipSpace rest)
    let (value, rest) ← scanStr fuel (skipSpace rest)
    match expect ',' (skipSpace rest) with
    | some rest =>
      let (items, rest) ← scanItems fuel (skipSpace rest)
      return ((key, value) :: items, rest)
    | none =>
      let rest ← expect '}' (skipSpace rest)
      return ([(key, value)], rest)

def scanObject (fuel : ℕ) (text : List Char) : Option (List (String × String) × List Char) := do
  let rest ← expect '{' text
  match expect '}' (skipSpace rest) with
  | some rest => return ([], rest)
  | none => scanItems fuel (skipSpace rest)

/-- `json.loads(text)`, of the text of a dictionary of strings. -/
def loads (text : String) : Option (Dict String) := do
  let (items, rest) ← scanObject text.toList.length (skipSpace text.toList)
  if skipSpace rest = [] then some (dictOf items) else none

/-! ## Escapes -/

theorem hexValue_hexLower {n : ℕ} (h : n < 16) : hexValue (hexLower n) = some n := by
  have hall : ∀ n < 16, hexValue (hexLower n) = some n := by decide
  exact hall n h

theorem scanUnit_unicodeEscape {n : ℕ} (h : n < 0x10000) (rest : List Char) :
    scanUnit (unicodeEscape n ++ rest) = some (n, rest) := by
  have hvalue : 4096 * (n / 4096 % 16) + 256 * (n / 256 % 16) + 16 * (n / 16 % 16) + n % 16 =
      n := by
    omega
  have hfour : hexFour (hexLower (n / 4096 % 16)) (hexLower (n / 256 % 16))
      (hexLower (n / 16 % 16)) (hexLower (n % 16)) = some n := by
    rw [hexFour, hexValue_hexLower (Nat.mod_lt _ (by decide)),
      hexValue_hexLower (Nat.mod_lt _ (by decide)), hexValue_hexLower (Nat.mod_lt _ (by decide)),
      hexValue_hexLower (Nat.mod_lt _ (by decide))]
    exact congrArg some hvalue
  change (hexFour _ _ _ _).map _ = _
  rw [hfour]
  rfl

theorem codeUnits_lt {c : Char} {unit : ℕ} (h : unit ∈ codeUnits c) : unit < 0x10000 := by
  have hc : c.toNat < 0x110000 := by
    have hvalid := c.valid
    change c.toNat < 0xd800 ∨ 0xdfff < c.toNat ∧ c.toNat < 0x110000 at hvalid
    omega
  rw [codeUnits] at h
  split_ifs at h with hsmall
  · rwa [List.mem_singleton.mp h]
  · rcases List.mem_cons.mp h with rfl | h
    · omega
    · rw [List.mem_singleton.mp h]
      omega

/-- A code unit that is read is one of the text, unless the string ends here. -/
theorem scanUnits_of_scanUnit {text rest : List Char} {unit : ℕ}
    (h : scanUnit text = some (unit, rest)) (hquote : text.head? ≠ some '"') (fuel : ℕ) :
    scanUnits (fuel + 1) text =
      (scanUnits fuel rest).map fun scanned ↦ (unit :: scanned.1, scanned.2) := by
  rw [scanUnits, h]
  · change (scanUnits fuel rest).bind _ = _
    cases scanUnits fuel rest with
    | none => rfl
    | some scanned => rfl
  · rintro _ rfl
    exact hquote rfl

theorem scanUnits_unicodeEscapes {units : List ℕ} (h : ∀ unit ∈ units, unit < 0x10000)
    (fuel : ℕ) (rest : List Char) :
    scanUnits (fuel + units.length) (units.flatMap unicodeEscape ++ rest) =
      (scanUnits fuel rest).map fun scanned ↦ (units ++ scanned.1, scanned.2) := by
  induction units with
  | nil => exact Option.map_id'.symm
  | cons unit units ih =>
    rw [List.forall_mem_cons] at h
    rw [List.flatMap_cons, List.append_assoc, List.length_cons, ← Nat.add_assoc,
      scanUnits_of_scanUnit (scanUnit_unicodeEscape h.1 _) (by simp [unicodeEscape]), ih h.2,
      Option.map_map]
    rfl

theorem scanUnits_escapeChar (c : Char) (fuel : ℕ) (rest : List Char) :
    scanUnits (fuel + (codeUnits c).length) (escapeChar c ++ rest) =
      (scanUnits fuel rest).map fun scanned ↦ (codeUnits c ++ scanned.1, scanned.2) := by
  have hshort {text : List Char} (hc : codeUnits c = [c.toNat])
      (htext : text.head? ≠ some '"') (hscan : scanUnit (text ++ rest) = some (c.toNat, rest))
      (hne : text ≠ []) : scanUnits (fuel + (codeUnits c).length) (text ++ rest) =
      (scanUnits fuel rest).map fun scanned ↦ (codeUnits c ++ scanned.1, scanned.2) := by
    rw [hc]
    refine scanUnits_of_scanUnit hscan ?_ fuel
    rwa [List.head?_append_of_ne_nil _ hne]
  rw [escapeChar]
  split_ifs with h h h h h h h h
  iterate 7
    subst h
    exact hshort rfl (by decide) rfl (by decide)
  · have hspace : 0x20 ≤ c.toNat := h.1
    have htilde : c.toNat ≤ 0x7e := h.2
    refine hshort (if_pos (by omega)) ?_ ?_ (List.cons_ne_nil _ _)
    · rw [List.head?_cons, Ne, Option.some.injEq]
      assumption
    · rw [List.singleton_append, scanUnit]
      · rw [if_neg]
        rintro (hlow | hslash)
        · omega
        · contradiction
      · rintro _ _ _ _ _ hc _
        contradiction
      · rintro _ _ hc _
        contradiction
  · exact scanUnits_unicodeEscapes (fun unit hunit ↦ codeUnits_lt hunit) fuel rest

theorem scanUnits_flatMap_escapeChar (s : List Char) (fuel : ℕ) (rest : List Char) :
    scanUnits (fuel + 1 + (s.flatMap codeUnits).length) (s.flatMap escapeChar ++ '"' :: rest) =
      some (s.flatMap codeUnits, rest) := by
  induction s generalizing fuel with
  | nil => rfl
  | cons c s ih =>
    rw [List.flatMap_cons, List.flatMap_cons, List.append_assoc, List.length_append,
      Nat.add_comm (codeUnits c).length, ← Nat.add_assoc, scanUnits_escapeChar, ih]
    rfl

/-! ## Surrogate pairs -/

theorem joinUnits_cons_of_not {unit : ℕ} (hhigh : isHigh unit = false) (hlow : isLow unit = false)
    (units : List ℕ) :
    joinUnits (unit :: units) = (joinUnits units).map (Char.ofNat unit :: ·) := by
  cases units with
  | nil => simp [joinUnits, hhigh, hlow]
  | cons next units =>
    rw [joinUnits, hhigh, hlow]
    rfl

theorem joinUnits_cons_cons {unit low : ℕ} (hhigh : isHigh unit = true) (hlow : isLow low = true)
    (units : List ℕ) : joinUnits (unit :: low :: units) = (joinUnits units).map
      (Char.ofNat (0x10000 + (unit - 0xd800) * 0x400 + (low - 0xdc00)) :: ·) := by
  rw [joinUnits, if_pos hhigh, if_pos hlow]
  rfl

theorem joinUnits_flatMap_codeUnits (s : List Char) : joinUnits (s.flatMap codeUnits) = some s := by
  induction s with
  | nil => rfl
  | cons c s ih =>
    have hvalid : c.toNat < 0xd800 ∨ 0xdfff < c.toNat ∧ c.toNat < 0x110000 := c.valid
    rw [List.flatMap_cons, codeUnits]
    split_ifs with hsmall
    · have hhigh : isHigh c.toNat = false := decide_eq_false (by omega)
      have hlow : isLow c.toNat = false := decide_eq_false (by omega)
      rw [List.singleton_append, joinUnits_cons_of_not hhigh hlow, ih, Char.ofNat_toNat]
      rfl
    · have hhigh : isHigh (0xd800 + (c.toNat - 0x10000) / 0x400) = true :=
        decide_eq_true (by omega)
      have hlow : isLow (0xdc00 + (c.toNat - 0x10000) % 0x400) = true := decide_eq_true (by omega)
      have hvalue : 0x10000 + (0xd800 + (c.toNat - 0x10000) / 0x400 - 0xd800) * 0x400 +
          (0xdc00 + (c.toNat - 0x10000) % 0x400 - 0xdc00) = c.toNat := by
        omega
      rw [List.cons_append, List.singleton_append, joinUnits_cons_cons hhigh hlow, ih, hvalue,
        Char.ofNat_toNat]
      rfl

/-! ## The round trip -/

theorem length_le_flatMap_unicodeEscape (units : List ℕ) :
    units.length ≤ (units.flatMap unicodeEscape).length := by
  induction units with
  | nil => exact le_rfl
  | cons unit units ih =>
    rw [List.flatMap_cons, List.length_cons, List.length_append, Nat.add_comm]
    exact Nat.add_le_add (by simp [unicodeEscape]) ih

theorem length_codeUnits_le (c : Char) : (codeUnits c).length ≤ (escapeChar c).length := by
  rw [escapeChar]
  split_ifs with h h h h h h h h
  iterate 7
    subst h
    decide
  · have htilde : c.toNat ≤ 0x7e := h.2
    rw [codeUnits, if_pos (by omega)]
    exact le_rfl
  · exact length_le_flatMap_unicodeEscape _

theorem length_flatMap_codeUnits_le (s : List Char) :
    (s.flatMap codeUnits).length ≤ (s.flatMap escapeChar).length := by
  induction s with
  | nil => exact le_rfl
  | cons c s ih =>
    rw [List.flatMap_cons, List.flatMap_cons, List.length_append, List.length_append]
    exact Nat.add_le_add (length_codeUnits_le c) ih

theorem expect_self (c : Char) (rest : List Char) : expect c (c :: rest) = some rest := if_pos rfl

theorem expect_of_ne {c next : Char} (h : next ≠ c) (rest : List Char) :
    expect c (next :: rest) = none := if_neg h

theorem scanStr_dumpsStr {s : String} {fuel : ℕ} (h : (dumpsStr s).length ≤ fuel)
    (rest : List Char) : scanStr fuel (dumpsStr s ++ rest) = some (s, rest) := by
  have hle := length_flatMap_codeUnits_le s.toList
  rw [dumpsStr, List.cons_append, List.length_cons, List.length_append, List.length_singleton] at h
  obtain ⟨more, rfl⟩ := Nat.exists_eq_add_of_le
    (show 1 + (s.toList.flatMap codeUnits).length ≤ fuel by omega)
  rw [dumpsStr, List.cons_append, List.cons_append, List.append_assoc, List.singleton_append,
    scanStr, expect_self, Nat.add_comm _ more, ← Nat.add_assoc]
  simp only [Option.bind_eq_bind, Option.bind_some, scanUnits_flatMap_escapeChar,
    joinUnits_flatMap_codeUnits, String.ofList_toList]
  rfl

theorem skipSpace_cons {c : Char} (h : c ∉ [' ', '\t', '\n', '\r']) (rest : List Char) :
    skipSpace (c :: rest) = c :: rest := by
  rw [skipSpace, List.dropWhile_cons_of_neg (by simpa using h)]

theorem skipSpace_dumpsStr (s : String) (rest : List Char) :
    skipSpace (' ' :: (dumpsStr s ++ rest)) = dumpsStr s ++ rest := by
  rw [skipSpace, List.dropWhile_cons_of_pos (by decide)]
  exact skipSpace_cons (by decide) _

theorem scanItems_dumpsItem {item : String × String} {fuel : ℕ}
    (h : (dumpsItem item).length ≤ fuel) (rest : List Char) :
    scanItems (fuel + 1) (dumpsItem item ++ rest) =
      match expect ',' (skipSpace rest) with
      | some rest => (scanItems fuel (skipSpace rest)).map fun scanned ↦
          (item :: scanned.1, scanned.2)
      | none => (expect '}' (skipSpace rest)).map fun rest ↦ ([item], rest) := by
  rw [dumpsItem, List.length_append, List.length_cons, List.length_cons] at h
  rw [dumpsItem, List.append_assoc, List.cons_append, List.cons_append, scanItems,
    scanStr_dumpsStr (by omega)]
  simp only [Option.bind_eq_bind, Option.bind_some]
  rw [skipSpace_cons (by decide), expect_self, Option.bind_some, skipSpace_dumpsStr,
    scanStr_dumpsStr (by omega)]
  dsimp only [Option.bind_some]
  cases expect ',' (skipSpace rest) with
  | some rest =>
    dsimp only
    cases scanItems fuel (skipSpace rest) <;> rfl
  | none =>
    dsimp only
    cases expect '}' (skipSpace rest) <;> rfl

theorem skipSpace_dumpsItems (item : String × String) (items : List (String × String))
    (rest : List Char) : skipSpace (' ' :: (dumpsItems (item :: items) ++ rest)) =
      dumpsItems (item :: items) ++ rest := by
  cases items with
  | nil =>
    rw [dumpsItems, dumpsItem, List.append_assoc, List.append_assoc]
    exact skipSpace_dumpsStr _ _
  | cons next items =>
    rw [dumpsItems, dumpsItem, List.append_assoc, List.append_assoc]
    · exact skipSpace_dumpsStr _ _
    · exact List.cons_ne_nil _ _

theorem scanItems_dumpsItems {item : String × String} {items : List (String × String)} {fuel : ℕ}
    (h : (dumpsItems (item :: items)).length ≤ fuel) (rest : List Char) :
    scanItems fuel (dumpsItems (item :: items) ++ rest) = some (item :: items, rest) := by
  induction items generalizing item fuel with
  | nil =>
    rw [dumpsItems, List.length_append, List.length_singleton] at h
    obtain ⟨more, rfl⟩ := Nat.exists_eq_add_of_le' (Nat.le_of_add_left_le h)
    rw [dumpsItems, List.append_assoc, List.singleton_append, scanItems_dumpsItem (by omega),
      skipSpace_cons (by decide), expect_of_ne (by decide), expect_self]
    rfl
  | cons next items ih =>
    rw [dumpsItems, List.length_append, List.length_cons, List.length_cons] at h
    · obtain ⟨more, rfl⟩ := Nat.exists_eq_add_of_le' (show 1 ≤ fuel by omega)
      rw [dumpsItems, List.append_assoc, List.cons_append, List.cons_append,
        scanItems_dumpsItem (by omega), skipSpace_cons (by decide), expect_self]
      · dsimp only
        rw [skipSpace_dumpsItems, ih (by omega)]
        rfl
      · exact List.cons_ne_nil _ _
    · exact List.cons_ne_nil _ _

/-- An object starts with a brace, and the first of its items with a quotation mark. -/
theorem scanObject_dumpsItems {d : Dict String} {fuel : ℕ} (h : (dumpsItems d).length ≤ fuel) :
    scanObject fuel ('{' :: dumpsItems d) = some (d, []) := by
  cases d with
  | nil => rfl
  | cons item items =>
    have hquote : ∃ text, dumpsItems (item :: items) = '"' :: text := by
      cases items with
      | nil => exact ⟨_, rfl⟩
      | cons next items => exact ⟨_, rfl⟩
    have hitems := scanItems_dumpsItems h []
    obtain ⟨text, htext⟩ := hquote
    rw [List.append_nil, htext] at hitems
    rw [scanObject, expect_self, htext]
    simp only [Option.bind_eq_bind, Option.bind_some]
    rw [skipSpace_cons (by decide), expect_of_ne (by decide)]
    exact hitems

/-- **The round trip.** A dictionary is read as it was written. -/
theorem loads_dumps {d : Dict String} (h : (d.map Prod.fst).Nodup) : loads (dumps d) = some d := by
  have hlength : (dumpsItems d).length ≤ ('{' :: dumpsItems d).length := Nat.le_succ _
  rw [loads, dumps, String.toList_ofList, skipSpace_cons (by decide),
    scanObject_dumpsItems hlength]
  change (if skipSpace [] = [] then some (dictOf d) else none) = _
  rw [dictOf_eq_self h]
  rfl

example : loads (dumps [("password", "ab\n\"é😀"), ("user", "")]) =
    some [("password", "ab\n\"é😀"), ("user", "")] := by decide +kernel

theorem getLast?_dumps (d : Dict String) : (dumps d).toList.getLast? = some '}' := by
  have hitems : ∀ items, (dumpsItems items).getLast? = some '}' := by
    intro items
    induction items with
    | nil => rfl
    | cons item items ih =>
      cases items with
      | nil => exact List.getLast?_concat
      | cons next items =>
        rw [dumpsItems, List.getLast?_append, List.getLast?_cons, List.getLast?_cons, ih]
        · rfl
        · exact List.cons_ne_nil _ _
  rw [dumps, String.toList_ofList, List.getLast?_cons, hitems]
  rfl

end JsonText

end MsSecurity
