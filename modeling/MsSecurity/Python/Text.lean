import MsSecurity.Python.Value

/-!
# Names and truth values in texts

The stanza of an input is named `type://name`. The source finds the name again by splitting at `//`
and taking the second piece, which is the name only where the name has no `//` of its own. A setting
that is on or off is one of a few words, in any case and with space around it.
-/

namespace MsSecurity

/-- `text.split("//")`, on the characters. -/
def splitSlashes : List Char → List (List Char)
  | [] => [[]]
  | '/' :: '/' :: rest => [] :: splitSlashes rest
  | c :: rest => (splitSlashes rest).modifyHead (c :: ·)

/-- `text.split("//")[1]`. -/
def afterSlashes (text : String) : Except PyError String :=
  match splitSlashes text.toList with
  | _ :: piece :: _ => .ok (String.ofList piece)
  | _ => .error .indexError

theorem splitSlashes_of_slash_not_mem {text : List Char} (h : '/' ∉ text) :
    splitSlashes text = [text] := by
  induction text with
  | nil => rfl
  | cons c text ih =>
    rw [List.mem_cons, not_or] at h
    rw [splitSlashes, ih h.2]
    · rfl
    · rintro _ rfl
      exact absurd rfl h.1

theorem splitSlashes_append {text : List Char} (h : '/' ∉ text) (rest : List Char) :
    splitSlashes (text ++ '/' :: '/' :: rest) = text :: splitSlashes rest := by
  induction text with
  | nil => rfl
  | cons c text ih =>
    rw [List.mem_cons, not_or] at h
    rw [List.cons_append, splitSlashes, ih h.2]
    · rfl
    · rintro _ rfl
      exact absurd rfl h.1

/-- A name as JSON has it; only a string can be split. -/
def Json.afterSlashes (name : Json) : Except PyError String :=
  match name with
  | .str text => MsSecurity.afterSlashes text
  | _ => .error .attributeError

theorem Json.afterSlashes_eq_error {name : Json} {e : PyError} (h : name.afterSlashes = .error e) :
    e = .indexError ∨ e = .attributeError := by
  cases name with
  | str text =>
    rw [Json.afterSlashes, MsSecurity.afterSlashes] at h
    split at h
    · cases h
    · exact .inl (Except.error.inj h).symm
  | _ => exact .inr (Except.error.inj h).symm

theorem Json.afterSlashes_raisesException (name : Json) : RaisesException name.afterSlashes := by
  intro e h
  obtain rfl | rfl := Json.afterSlashes_eq_error h <;> rfl

/-! ## Splitting at a character -/

theorem splitOnAux_singleton (s : String) (c : Char) (b i : String.Pos.Raw) (r : List String) :
    s.splitOnAux (String.singleton c) b i 0 r = s.splitAux (· == c) b i r := by
  have hget : (0 : String.Pos.Raw).get (String.singleton c) = c := by
    simpa using String.get_of_valid [] [c]
  have hnext : (0 : String.Pos.Raw).next (String.singleton c) = ⟨c.utf8Size⟩ := by
    simpa using String.next_of_valid [] c []
  have hend : (⟨c.utf8Size⟩ : String.Pos.Raw).atEnd (String.singleton c) = true := by
    simp [String.Pos.Raw.atEnd]
  induction b, i, r using String.splitAux.induct s (· == c) with
  | case1 b i r hi => rw [String.splitOnAux, String.splitAux, if_pos hi, dif_pos hi]
  | case2 b i r hi hlt hc i' ih =>
    -- a separator of one character is matched whole, and ends where the character does
    have hback : (i.next s).unoffsetBy ⟨c.utf8Size⟩ = i := by
      rw [← eq_of_beq hc]
      ext
      simp [String.Pos.Raw.next]
    rw [String.splitOnAux, String.splitAux, if_neg hi, dif_neg hi, hget, if_pos hc]
    dsimp only
    rw [if_pos hc, hnext, if_pos hend, hback, ih]
  | case3 b i r hi hlt hc ih =>
    have hback : (i.unoffsetBy 0).next s = i.next s := rfl
    rw [String.splitOnAux, String.splitAux, if_neg hi, dif_neg hi, hget, if_neg hc]
    dsimp only
    rw [if_neg hc, hback, ih]

/-- `s.split(c)`, on the characters. -/
theorem splitOn_singleton (s : String) (c : Char) :
    s.splitOn (String.singleton c) = (s.toList.splitOn c).map String.ofList := by
  rw [String.splitOn, if_neg (by simp), splitOnAux_singleton, List.splitOn_eq_splitOnP,
    ← String.splitToList_of_valid]
  rfl

/-! ## Truth values -/

/-- `str.isspace` of one character. -/
def isSpace (c : Char) : Bool :=
  c.val ∈ [0x9, 0xa, 0xb, 0xc, 0xd, 0x1c, 0x1d, 0x1e, 0x1f, 0x20, 0x85, 0xa0, 0x1680, 0x2028,
    0x2029, 0x202f, 0x205f, 0x3000] ∨ 0x2000 ≤ c.val ∧ c.val ≤ 0x200a

/-- `s.strip()`. -/
def strip (s : String) : String :=
  String.ofList ((s.toList.dropWhile isSpace).reverse.dropWhile isSpace).reverse

/-- The character is the capital, or becomes it by `upper`. -/
def upperIs (c capital : Char) : Bool := c.toUpper = capital ∨ c = 'ſ' ∧ capital = 'S'

/-- `is_true`. -/
def isTrueStr (val : String) : Bool :=
  ["1", "TRUE", "T", "Y", "YES"].any fun word ↦
    let value := (strip val).toList
    value.length = word.length && (value.zip word.toList).all fun (c, capital) ↦ upperIs c capital

/-- `is_false`. -/
def isFalseStr (val : String) : Bool :=
  ["0", "FALSE", "F", "N", "NO", "NONE", ""].any fun word ↦
    let value := (strip val).toList
    value.length = word.length && (value.zip word.toList).all fun (c, capital) ↦ upperIs c capital

end MsSecurity
