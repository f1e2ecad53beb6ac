import Mathlib.Data.List.TakeWhile
import Mathlib.Tactic.Common

/-!
# Segments of a URL path

How a server reads the text after the path of a collection as the key of one of its resources: the
path ends at the first `?` or `#`, a `/` starts another segment, and an escape `%HH` is the byte
with that value. Any other character stands for the bytes of its UTF-8 encoding, also one that
should have been escaped.

* `segmentOf_eq_some_iff`: a text is read as bytes of its own length only when it has no delimiter
  and no escape, and then as itself.
-/

namespace MsSecurity

/-- The value of a hexadecimal digit. -/
def hexValue (c : Char) : Option ℕ :=
  if '0' ≤ c ∧ c ≤ '9' then some (c.toNat - '0'.toNat)
  else if 'a' ≤ c ∧ c ≤ 'f' then some (c.toNat - 'a'.toNat + 10)
  else if 'A' ≤ c ∧ c ≤ 'F' then some (c.toNat - 'A'.toNat + 10)
  else none

/-- The UTF-8 encoding of a text. -/
def utf8Bytes (text : List Char) : List UInt8 := text.flatMap String.utf8EncodeChar

/-- Escapes are replaced by the bytes they stand for. -/
def percentDecode : List Char → List UInt8
  | [] => []
  | '%' :: a :: b :: rest =>
    match hexValue a, hexValue b with
    | some x, some y => UInt8.ofNat (16 * x + y) :: percentDecode rest
    | _, _ => String.utf8EncodeChar '%' ++ percentDecode (a :: b :: rest)
  | c :: rest => String.utf8EncodeChar c ++ percentDecode rest

/-- Somewhere a `%` is followed by two hexadecimal digits. -/
def hasEscape : List Char → Bool
  | [] => false
  | '%' :: a :: b :: rest =>
    (hexValue a).isSome && (hexValue b).isSome || hasEscape (a :: b :: rest)
  | _ :: rest => hasEscape rest

/-- The end of a path. -/
def endsPath (c : Char) : Bool := c = '?' ∨ c = '#'

/-- What the text after the path of a collection addresses. -/
def segmentOf (text : List Char) : Option (List UInt8) :=
  let segment := text.takeWhile fun c ↦ !endsPath c
  if '/' ∈ segment then none else some (percentDecode segment)

/-- A text that is one segment and stands for itself. -/
structure IsPlain (text : List Char) : Prop where
  slash : '/' ∉ text
  question : '?' ∉ text
  hash : '#' ∉ text
  escape : hasEscape text = false

/-! ## Decoding -/

@[simp] theorem utf8Bytes_nil : utf8Bytes [] = [] := rfl

theorem utf8Bytes_cons (c : Char) (text : List Char) :
    utf8Bytes (c :: text) = String.utf8EncodeChar c ++ utf8Bytes text := List.flatMap_cons

theorem length_utf8EncodeChar_pos (c : Char) : 0 < (String.utf8EncodeChar c).length :=
  List.length_pos_iff.mpr String.utf8EncodeChar_ne_nil

theorem length_utf8Bytes_append (text text' : List Char) :
    (utf8Bytes (text ++ text')).length = (utf8Bytes text).length + (utf8Bytes text').length := by
  rw [utf8Bytes, List.flatMap_append, List.length_append, utf8Bytes, utf8Bytes]

theorem eq_nil_of_length_utf8Bytes {text : List Char} (h : (utf8Bytes text).length = 0) :
    text = [] := by
  cases text with
  | nil => rfl
  | cons c rest =>
    rw [utf8Bytes_cons, List.length_append] at h
    have := length_utf8EncodeChar_pos c
    omega

theorem percentDecode_escape {a b : Char} {x y : ℕ} (hx : hexValue a = some x)
    (hy : hexValue b = some y) (rest : List Char) :
    percentDecode ('%' :: a :: b :: rest) = UInt8.ofNat (16 * x + y) :: percentDecode rest := by
  rw [percentDecode, hx, hy]

theorem length_percentDecode_le (text : List Char) :
    (percentDecode text).length ≤ (utf8Bytes text).length := by
  induction text using percentDecode.induct with
  | case1 => exact le_rfl
  | case2 a b rest x y hx hy ih =>
    rw [percentDecode_escape hy hx]
    simp only [utf8Bytes_cons, List.length_cons, List.length_append]
    have := length_utf8EncodeChar_pos '%'
    omega
  | case3 a b rest h ih =>
    rw [percentDecode, utf8Bytes_cons, List.length_append]
    · split
      · rename_i hx hy
        exact absurd hy (h _ _ hx)
      · rw [List.length_append]
        omega
  | case4 c rest h ih =>
    rw [percentDecode, utf8Bytes_cons, List.length_append, List.length_append]
    · omega
    · exact h

theorem length_percentDecode_lt {text : List Char} (h : hasEscape text = true) :
    (percentDecode text).length < (utf8Bytes text).length := by
  induction text using percentDecode.induct with
  | case1 => cases h
  | case2 a b rest y x hy hx ih =>
    rw [percentDecode_escape hx hy]
    simp only [utf8Bytes_cons, List.length_cons, List.length_append]
    have hle := length_percentDecode_le rest
    have hpercent := length_utf8EncodeChar_pos '%'
    have ha := length_utf8EncodeChar_pos a
    have hb := length_utf8EncodeChar_pos b
    omega
  | case3 a b rest hno ih =>
    have hescape : hasEscape (a :: b :: rest) = true := by
      rw [hasEscape, Bool.or_eq_true] at h
      refine h.resolve_left fun hboth ↦ ?_
      obtain ⟨hx, hy⟩ := Bool.and_eq_true_iff.mp hboth
      obtain ⟨x, hx⟩ := Option.isSome_iff_exists.mp hx
      obtain ⟨y, hy⟩ := Option.isSome_iff_exists.mp hy
      exact hno x y hx hy
    rw [percentDecode, utf8Bytes_cons, List.length_append]
    · split
      · rename_i hx hy
        exact absurd hy (hno _ _ hx)
      · rw [List.length_append]
        exact Nat.add_lt_add_left (ih hescape) _
  | case4 c rest hno ih =>
    have hescape : hasEscape rest = true := by
      rwa [hasEscape] at h
      exact hno
    rw [percentDecode, utf8Bytes_cons, List.length_append, List.length_append]
    · exact Nat.add_lt_add_left (ih hescape) _
    · exact hno

/-- **Text without escapes.** Decoding does not change it. -/
theorem percentDecode_eq_utf8Bytes {text : List Char} (h : hasEscape text = false) :
    percentDecode text = utf8Bytes text := by
  induction text using percentDecode.induct with
  | case1 => rfl
  | case2 a b rest y x hy hx ih =>
    rw [hasEscape, hx, hy] at h
    cases h
  | case3 a b rest hno ih =>
    rw [hasEscape, Bool.or_eq_false_iff] at h
    rw [percentDecode, utf8Bytes_cons]
    split
    · rename_i hx hy
      exact absurd hy (hno _ _ hx)
    · rw [ih h.2]
  | case4 c rest hno ih =>
    rw [hasEscape] at h
    · rw [percentDecode, utf8Bytes_cons, ih h]
      exact hno
    · exact hno

/-! ## Segments -/

theorem takeWhile_endsPath_eq_self_iff {text : List Char} :
    (text.takeWhile fun c ↦ !endsPath c) = text ↔ '?' ∉ text ∧ '#' ∉ text := by
  rw [List.takeWhile_eq_self_iff]
  constructor
  · intro h
    exact ⟨fun hmem ↦ by simpa [endsPath] using h _ hmem,
      fun hmem ↦ by simpa [endsPath] using h _ hmem⟩
  · rintro ⟨hquestion, hhash⟩ c hc
    have h₁ : c ≠ '?' := fun h ↦ hquestion (h ▸ hc)
    have h₂ : c ≠ '#' := fun h ↦ hhash (h ▸ hc)
    simp [endsPath, h₁, h₂]

/-- An escape does not begin in a text without `%`. -/
theorem hasEscape_append {text : List Char} (h : '%' ∉ text) (text' : List Char) :
    hasEscape (text ++ text') = hasEscape text' := by
  induction text with
  | nil => rfl
  | cons c text ih =>
    rw [List.mem_cons, not_or] at h
    rw [List.cons_append, hasEscape, ih h.2]
    rintro _ _ _ rfl
    exact absurd rfl h.1

theorem isPlain_append_iff {text : List Char} (h : IsPlain text) (hpercent : '%' ∉ text)
    {text' : List Char} : IsPlain (text ++ text') ↔ IsPlain text' := by
  constructor
  · rintro ⟨hslash, hquestion, hhash, hescape⟩
    rw [List.mem_append, not_or] at hslash hquestion hhash
    rw [hasEscape_append hpercent] at hescape
    exact ⟨hslash.2, hquestion.2, hhash.2, hescape⟩
  · rintro ⟨hslash, hquestion, hhash, hescape⟩
    refine ⟨?_, ?_, ?_, (hasEscape_append hpercent text').trans hescape⟩
    · exact List.mem_append.not.mpr (not_or.mpr ⟨h.slash, hslash⟩)
    · exact List.mem_append.not.mpr (not_or.mpr ⟨h.question, hquestion⟩)
    · exact List.mem_append.not.mpr (not_or.mpr ⟨h.hash, hhash⟩)

theorem segmentOf_of_not_mem {text : List Char} (hslash : '/' ∉ text) (hquestion : '?' ∉ text)
    (hhash : '#' ∉ text) : segmentOf text = some (percentDecode text) := by
  rw [segmentOf, takeWhile_endsPath_eq_self_iff.mpr ⟨hquestion, hhash⟩]
  exact if_neg hslash

/-- **Segments.** A text is read as bytes of its own length only if it is plain, and then as its own
bytes. -/
theorem segmentOf_eq_some_iff {text : List Char} {bytes : List UInt8}
    (hlength : bytes.length = (utf8Bytes text).length) :
    segmentOf text = some bytes ↔ IsPlain text ∧ bytes = utf8Bytes text := by
  constructor
  · intro h
    rw [segmentOf] at h
    split_ifs at h with hslash
    obtain rfl := Option.some.inj h
    -- a part that is cut off would be missing from the decoded text
    have hself : (text.takeWhile fun c ↦ !endsPath c) = text := by
      have hsplit := @List.takeWhile_append_dropWhile Char (fun c ↦ !endsPath c) text
      have hparts := length_utf8Bytes_append (text.takeWhile fun c ↦ !endsPath c)
        (text.dropWhile fun c ↦ !endsPath c)
      rw [hsplit, ← hlength] at hparts
      have hle := length_percentDecode_le (text.takeWhile fun c ↦ !endsPath c)
      have hrest : (text.dropWhile fun c ↦ !endsPath c) = [] :=
        eq_nil_of_length_utf8Bytes (by omega)
      rwa [hrest, List.append_nil] at hsplit
    rw [hself] at hslash hlength
    obtain ⟨hquestion, hhash⟩ := takeWhile_endsPath_eq_self_iff.mp hself
    have hescape : hasEscape text = false := by
      by_contra hescape
      have hlt := length_percentDecode_lt (Bool.not_eq_false _ ▸ hescape)
      omega
    rw [hself]
    exact ⟨⟨hslash, hquestion, hhash, hescape⟩, percentDecode_eq_utf8Bytes hescape⟩
  · rintro ⟨⟨hslash, hquestion, hhash, hescape⟩, rfl⟩
    rw [segmentOf_of_not_mem hslash hquestion hhash, percentDecode_eq_utf8Bytes hescape]

end MsSecurity
