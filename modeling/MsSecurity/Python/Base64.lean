import Mathlib.Data.List.Basic
import Mathlib.Tactic.Common

/-!
# Base64

Bytes are written as 6-bit groups, one character each. The URL-safe alphabet has `-` and `_` where
the standard one has `+` and `/`. `b64decode` reads the standard alphabet and passes over every
character that is not in it, so that of a URL-safe text it reads what is left without those two.

## Main results

* `Base64.bytesOf_sextets`: the groups spell the bytes they were made of.
* `Base64.b64decode_pad_urlsafeEncode`: what is read of a URL-safe text, padded to its length.
* `Base64.b64decode_pad_of_forall_lt`: where no group is 62 or 63, those are the bytes encoded.
-/

namespace MsSecurity

namespace Base64

/-! ## Bytes and groups -/

/-- The 6-bit groups of some bytes, the last one filled up with zeros. -/
def sextets : List UInt8 → List ℕ
  | [] => []
  | [a] => [a.toNat / 4, a.toNat % 4 * 16]
  | [a, b] => [a.toNat / 4, a.toNat % 4 * 16 + b.toNat / 16, b.toNat % 16 * 4]
  | a :: b :: c :: rest =>
    a.toNat / 4 :: (a.toNat % 4 * 16 + b.toNat / 16) :: (b.toNat % 16 * 4 + c.toNat / 64) ::
      c.toNat % 64 :: sextets rest

/-- The bytes that 6-bit groups spell. -/
def bytesOf : List ℕ → List UInt8
  | v :: w :: x :: y :: rest =>
    .ofNat (v * 4 + w / 16) :: .ofNat (w % 16 * 16 + x / 4) :: .ofNat (x % 4 * 64 + y) ::
      bytesOf rest
  | [v, w, x] => [.ofNat (v * 4 + w / 16), .ofNat (w % 16 * 16 + x / 4)]
  | [v, w] => [.ofNat (v * 4 + w / 16)]
  | [_] => []
  | [] => []

theorem ofNat_eq_of_toNat_eq {n : ℕ} {a : UInt8} (h : n = a.toNat) : UInt8.ofNat n = a := by
  rw [h, UInt8.ofNat_toNat]

theorem bytesOf_sextets (bytes : List UInt8) : bytesOf (sextets bytes) = bytes := by
  induction bytes using sextets.induct with
  | case1 => rfl
  | case2 a =>
    rw [sextets, bytesOf, ofNat_eq_of_toNat_eq (a := a) (by omega)]
  | case3 a b =>
    have ha := a.toNat_lt
    have hb := b.toNat_lt
    rw [sextets, bytesOf, ofNat_eq_of_toNat_eq (a := a) (by omega),
      ofNat_eq_of_toNat_eq (a := b) (by omega)]
  | case4 a b c rest ih =>
    have ha := a.toNat_lt
    have hb := b.toNat_lt
    have hc := c.toNat_lt
    rw [sextets, bytesOf, ih, ofNat_eq_of_toNat_eq (a := a) (by omega),
      ofNat_eq_of_toNat_eq (a := b) (by omega), ofNat_eq_of_toNat_eq (a := c) (by omega)]

theorem sextets_lt (bytes : List UInt8) : ∀ v ∈ sextets bytes, v < 64 := by
  induction bytes using sextets.induct with
  | case1 => exact List.forall_mem_nil _
  | case2 a =>
    have ha := a.toNat_lt
    simp only [sextets, List.forall_mem_cons]
    exact ⟨by omega, by omega, List.forall_mem_nil _⟩
  | case3 a b =>
    have ha := a.toNat_lt
    have hb := b.toNat_lt
    simp only [sextets, List.forall_mem_cons]
    exact ⟨by omega, by omega, by omega, List.forall_mem_nil _⟩
  | case4 a b c rest ih =>
    have ha := a.toNat_lt
    have hb := b.toNat_lt
    have hc := c.toNat_lt
    simp only [sextets, List.forall_mem_cons]
    exact ⟨by omega, by omega, by omega, by omega, ih⟩

/-- A group alone spells nothing, and is never left over. -/
theorem length_sextets_mod (bytes : List UInt8) : (sextets bytes).length % 4 ≠ 1 := by
  induction bytes using sextets.induct with
  | case1 => decide
  | case2 a => exact (by decide : 2 % 4 ≠ 1)
  | case3 a b => exact (by decide : 3 % 4 ≠ 1)
  | case4 a b c rest ih =>
    simp only [sextets, List.length_cons]
    omega

/-! ## Groups and characters -/

/-- The standard alphabet. -/
def alphabet : List Char :=
  "ABCDEFGHIJKLMNOPQRSTUVWXYZabcdefghijklmnopqrstuvwxyz0123456789+/".toList

/-- The URL-safe alphabet. -/
def urlsafeAlphabet : List Char :=
  "ABCDEFGHIJKLMNOPQRSTUVWXYZabcdefghijklmnopqrstuvwxyz0123456789-_".toList

def urlsafeChar (v : ℕ) : Char := urlsafeAlphabet.getD v '_'

/-- `urlsafe_b64encode`, without the padding. -/
def urlsafeEncode (bytes : List UInt8) : String :=
  String.ofList ((sextets bytes).map urlsafeChar)

/-- The group of a character of the standard alphabet. -/
def sextet? (c : Char) : Option ℕ := alphabet.idxOf? c

theorem sextet?_urlsafeChar : ∀ v < 62, sextet? (urlsafeChar v) = some v := by
  decide +kernel

/-- The two characters that only the URL-safe alphabet has. -/
theorem sextet?_urlsafeChar_of_le : ∀ v < 64, 62 ≤ v → sextet? (urlsafeChar v) = none := by
  decide +kernel

theorem urlsafeChar_ne : ∀ v < 64,
    urlsafeChar v ≠ '=' ∧ urlsafeChar v ≠ '.' ∧ (urlsafeChar v).toNat < 128 := by
  decide +kernel

/-! ## Reading a text -/

/-- `a2b_base64`. What it keeps between two characters is the place in a quadruple of them, the bits
that are not yet a part of a byte, and the `=` in a row; `none` where it raises. -/
def a2b (quadPos leftchar pads : ℕ) : List Char → Option (List UInt8)
  | [] => if quadPos = 0 then some [] else none
  | c :: text =>
    if c = '=' then
      if 2 ≤ quadPos then
        if 4 ≤ quadPos + (pads + 1) then some [] else a2b quadPos leftchar (pads + 1) text
      else a2b quadPos leftchar pads text
    else match sextet? c with
      | none => a2b quadPos leftchar pads text
      | some v => match quadPos with
        | 0 => a2b 1 v 0 text
        | 1 => (a2b 2 (v % 16) 0 text).map (.ofNat (leftchar * 4 + v / 16) :: ·)
        | 2 => (a2b 3 (v % 4) 0 text).map (.ofNat (leftchar * 16 + v / 4) :: ·)
        | _ => (a2b 0 0 0 text).map (.ofNat (leftchar * 64 + v) :: ·)

/-- `b64decode` of a `str`, which has to be ASCII; `none` where it raises. -/
def b64decode (text : String) : Option (List UInt8) :=
  if text.toList.all fun c ↦ c.toNat < 128 then a2b 0 0 0 text.toList else none

/-- The text with the padding its length asks for. -/
def pad (text : String) : String :=
  text ++ String.ofList (List.replicate ((4 - text.length % 4) % 4) '=')

/-- A character that `a2b_base64` does not pass over. -/
def isRead (c : Char) : Bool := c = '=' || (sextet? c).isSome

theorem a2b_filter (text : List Char) (quadPos leftchar pads : ℕ) :
    a2b quadPos leftchar pads (text.filter isRead) = a2b quadPos leftchar pads text := by
  induction text generalizing quadPos leftchar pads with
  | nil => rfl
  | cons c text ih =>
    rw [a2b, List.filter_cons]
    by_cases hpad : c = '='
    · rw [if_pos hpad, isRead, decide_eq_true hpad, Bool.true_or, if_pos rfl, a2b, if_pos hpad, ih,
        ih]
    rw [if_neg hpad, isRead, decide_eq_false hpad, Bool.false_or]
    cases hc : sextet? c with
    | none => exact ih quadPos leftchar pads
    | some v =>
      rw [Option.isSome_some, if_pos rfl, a2b, if_neg hpad, hc]
      dsimp only
      rw [ih, ih, ih, ih]

theorem a2b_cons {v : ℕ} (hv : v < 62) (quadPos leftchar pads : ℕ) (text : List Char) :
    a2b quadPos leftchar pads (urlsafeChar v :: text) = match quadPos with
      | 0 => a2b 1 v 0 text
      | 1 => (a2b 2 (v % 16) 0 text).map (.ofNat (leftchar * 4 + v / 16) :: ·)
      | 2 => (a2b 3 (v % 4) 0 text).map (.ofNat (leftchar * 16 + v / 4) :: ·)
      | _ => (a2b 0 0 0 text).map (.ofNat (leftchar * 64 + v) :: ·) := by
  rw [a2b, if_neg (urlsafeChar_ne v (Nat.lt_trans hv (by decide))).1, sextet?_urlsafeChar v hv]

/-- Padding ends a text that has got far enough in its last quadruple. -/
theorem a2b_replicate_of_le {quadPos : ℕ} (hle : 2 ≤ quadPos) (leftchar n pads : ℕ)
    (hlt : quadPos + pads < 4) :
    a2b quadPos leftchar pads (List.replicate n '=') =
      if 4 ≤ quadPos + pads + n then some [] else none := by
  induction n generalizing pads with
  | zero => rw [List.replicate_zero, a2b, if_neg (by omega), if_neg (by omega)]
  | succ n ih =>
    rw [List.replicate_succ, a2b, if_pos rfl, if_pos hle]
    by_cases hend : 4 ≤ quadPos + (pads + 1)
    · rw [if_pos hend, if_pos (by omega)]
    · rw [if_neg hend, ih (pads + 1) (by omega), show quadPos + (pads + 1) + n =
        quadPos + pads + (n + 1) by omega]

theorem a2b_replicate_of_lt {quadPos : ℕ} (hlt : quadPos < 2) (leftchar pads n : ℕ) :
    a2b quadPos leftchar pads (List.replicate n '=') =
      if quadPos = 0 then some [] else none := by
  induction n with
  | zero => rfl
  | succ n ih => rw [List.replicate_succ, a2b, if_pos rfl, if_neg (by omega), ih]

/-- So many groups and so many `=` are a whole text. -/
def Complete (groups pads : ℕ) : Prop :=
  groups % 4 = 0 ∨ 2 ≤ groups % 4 ∧ 4 ≤ groups % 4 + pads

instance (groups pads : ℕ) : Decidable (Complete groups pads) :=
  inferInstanceAs (Decidable (_ ∨ _))

theorem a2b_replicate (groups leftchar n : ℕ) :
    a2b (groups % 4) leftchar 0 (List.replicate n '=') =
      if Complete groups n then some [] else none := by
  by_cases hle : 2 ≤ groups % 4
  · rw [a2b_replicate_of_le hle leftchar n 0 (Nat.mod_lt _ (by decide))]
    exact if_congr (by rw [Complete]; omega) rfl rfl
  · rw [a2b_replicate_of_lt (by omega)]
    exact if_congr (by rw [Complete]; omega) rfl rfl

theorem a2b_map_urlsafeChar (vs : List ℕ) (n : ℕ) (hvs : ∀ v ∈ vs, v < 62) :
    a2b 0 0 0 (vs.map urlsafeChar ++ List.replicate n '=') =
      if Complete vs.length n then some (bytesOf vs) else none := by
  induction vs using bytesOf.induct with
  | case1 v w x y rest ih =>
    simp only [List.forall_mem_cons] at hvs
    obtain ⟨hv, hw, hx, hy, hrest⟩ := hvs
    have hcomplete : Complete (rest.length + 1 + 1 + 1 + 1) n ↔ Complete rest.length n := by
      rw [Complete, Complete, Nat.add_mod_right rest.length 4]
    simp only [List.map_cons, List.cons_append, a2b_cons hv, a2b_cons hw, a2b_cons hx, a2b_cons hy,
      ih hrest, bytesOf, List.length_cons, hcomplete]
    split <;> rfl
  | case2 v w x =>
    simp only [List.forall_mem_cons] at hvs
    obtain ⟨hv, hw, hx, -⟩ := hvs
    have hpad : a2b 3 (x % 4) 0 (List.replicate n '=') = _ := a2b_replicate 3 (x % 4) n
    simp only [List.map_cons, List.cons_append, a2b_cons hv, a2b_cons hw, a2b_cons hx,
      List.map_nil, List.nil_append, hpad, bytesOf, List.length_cons, List.length_nil]
    split <;> rfl
  | case3 v w =>
    simp only [List.forall_mem_cons] at hvs
    obtain ⟨hv, hw, -⟩ := hvs
    have hpad : a2b 2 (w % 16) 0 (List.replicate n '=') = _ := a2b_replicate 2 (w % 16) n
    simp only [List.map_cons, List.cons_append, a2b_cons hv, a2b_cons hw,
      List.map_nil, List.nil_append, hpad, bytesOf, List.length_cons, List.length_nil]
    split <;> rfl
  | case4 v =>
    have hpad : a2b 1 v 0 (List.replicate n '=') = _ := a2b_replicate 1 v n
    rw [List.map_singleton, List.singleton_append, a2b_cons (hvs v (List.mem_singleton_self v))]
    exact hpad
  | case5 => exact a2b_replicate 0 0 n

/-- **What is read of a URL-safe text**, padded to its length: the groups below 62, regrouped, if
they and the padding are a whole text. -/
theorem b64decode_pad_urlsafeEncode (bytes : List UInt8) :
    b64decode (pad (urlsafeEncode bytes)) =
      if Complete ((sextets bytes).filter (· < 62)).length ((4 - (sextets bytes).length % 4) % 4)
        then some (bytesOf ((sextets bytes).filter (· < 62))) else none := by
  have hlt := sextets_lt bytes
  have htext : (pad (urlsafeEncode bytes)).toList = (sextets bytes).map urlsafeChar ++
      List.replicate ((4 - (sextets bytes).length % 4) % 4) '=' := by
    simp [pad, urlsafeEncode]
  have hascii : (pad (urlsafeEncode bytes)).toList.all (fun c ↦ c.toNat < 128) = true := by
    rw [htext, List.all_append, List.all_map, Bool.and_eq_true, List.all_eq_true, List.all_eq_true]
    refine ⟨fun v hv ↦ decide_eq_true (urlsafeChar_ne v (hlt v hv)).2.2, fun c hc ↦ ?_⟩
    rw [List.eq_of_mem_replicate hc]
    decide
  have hread : ∀ v ∈ sextets bytes, isRead (urlsafeChar v) = decide (v < 62) := by
    intro v hv
    rw [isRead, decide_eq_false (urlsafeChar_ne v (hlt v hv)).1, Bool.false_or]
    by_cases h : v < 62
    · rw [sextet?_urlsafeChar v h, decide_eq_true h, Option.isSome_some]
    · rw [sextet?_urlsafeChar_of_le v (hlt v hv) (by omega), decide_eq_false h, Option.isSome_none]
  have hfilter : (pad (urlsafeEncode bytes)).toList.filter isRead =
      ((sextets bytes).filter (· < 62)).map urlsafeChar ++
        List.replicate ((4 - (sextets bytes).length % 4) % 4) '=' := by
    rw [htext, List.filter_append, List.filter_map, List.filter_replicate_of_pos rfl]
    exact congrArg (fun vs ↦ List.map urlsafeChar vs ++ _) (List.filter_congr hread)
  rw [b64decode, if_pos hascii, ← a2b_filter, hfilter]
  exact a2b_map_urlsafeChar _ _ fun v hv ↦ of_decide_eq_true (List.mem_filter.mp hv).2

/-- **The round trip** of a text that both alphabets write alike. -/
theorem b64decode_pad_of_forall_lt {bytes : List UInt8} (h : ∀ v ∈ sextets bytes, v < 62) :
    b64decode (pad (urlsafeEncode bytes)) = some bytes := by
  have hmod := length_sextets_mod bytes
  rw [b64decode_pad_urlsafeEncode,
    List.filter_eq_self.mpr fun v hv ↦ decide_eq_true (h v hv),
    if_pos (by rw [Complete]; omega), bytesOf_sextets]

end Base64

end MsSecurity
