import Mathlib.Data.List.Lex
import Mathlib.Data.String.Basic
import Mathlib.Order.Fin.Basic
import Mathlib.Tactic.Positivity
import Mathlib.Tactic.Common

/-!
# The order of fixed-width decimal text

A text built from zero-padded decimal fields of fixed widths, with fixed separators between them,
sorts like the list of its field values: `renderFields_append_lt_iff`. Nothing of the kind holds for
a field of varying length. The last section treats the one such field a timestamp has, the digits of
a fraction in front of a terminator, where the text order and the numeric order part exactly when
one digit string is cut short of the other.

The terminator only has to sort after every digit. A shorter digit string is then *greater* than its
extensions, which is the opposite of what its value is.
-/

namespace MsSecurity

/-! ## Lexicographic order of concatenations -/

theorem append_lt_append_iff {α : Type*} [LinearOrder α] {a b s t : List α}
    (h : a.length = b.length) : a ++ s < b ++ t ↔ a < b ∨ a = b ∧ s < t := by
  induction a generalizing b with
  | nil =>
    obtain rfl := List.length_eq_zero_iff.mp h.symm
    simp
  | cons x a ih =>
    cases b with
    | nil => simp at h
    | cons y b =>
      rw [List.cons_append, List.cons_append, List.cons_lt_cons_iff, List.cons_lt_cons_iff,
        ih (by simpa using h), List.cons.injEq]
      tauto

/-! ## Zero-padded decimal digits -/

/-- The `w` low decimal digits of `n`, most significant first. -/
def padDigits : ℕ → ℕ → List Char
  | 0, _ => []
  | w + 1, n => Nat.digitChar (n / 10 ^ w) :: padDigits w (n % 10 ^ w)

@[simp] theorem length_padDigits (w n : ℕ) : (padDigits w n).length = w := by
  induction w generalizing n with
  | zero => rfl
  | succ w ih => rw [padDigits, List.length_cons, ih]

private theorem digitChar_lt_iff : ∀ a < 10, ∀ b < 10,
    (Nat.digitChar a < Nat.digitChar b ↔ a < b) := by decide

private theorem digitChar_inj : ∀ a < 10, ∀ b < 10,
    (Nat.digitChar a = Nat.digitChar b ↔ a = b) := by decide

private theorem div_pow_lt_ten {w n : ℕ} (h : n < 10 ^ (w + 1)) : n / 10 ^ w < 10 :=
  Nat.div_lt_of_lt_mul (by rwa [pow_succ] at h)

private theorem mod_pow_lt (w n : ℕ) : n % 10 ^ w < 10 ^ w := Nat.mod_lt _ (by positivity)

theorem padDigits_inj {w n m : ℕ} (hn : n < 10 ^ w) (hm : m < 10 ^ w) :
    padDigits w n = padDigits w m ↔ n = m := by
  refine ⟨fun h ↦ ?_, fun h ↦ h ▸ rfl⟩
  induction w generalizing n m with
  | zero => rw [pow_zero] at hn hm; omega
  | succ w ih =>
    rw [padDigits, padDigits, List.cons.injEq,
      digitChar_inj _ (div_pow_lt_ten hn) _ (div_pow_lt_ten hm)] at h
    have hmod := ih (mod_pow_lt w n) (mod_pow_lt w m) h.2
    rw [← Nat.div_add_mod n (10 ^ w), ← Nat.div_add_mod m (10 ^ w), h.1, hmod]

theorem padDigits_lt_iff {w n m : ℕ} (hn : n < 10 ^ w) (hm : m < 10 ^ w) :
    padDigits w n < padDigits w m ↔ n < m := by
  induction w generalizing n m with
  | zero => rw [pow_zero] at hn hm; simp [padDigits]; omega
  | succ w ih =>
    have hdn := Nat.div_add_mod n (10 ^ w)
    have hdm := Nat.div_add_mod m (10 ^ w)
    have hn' := mod_pow_lt w n
    have hm' := mod_pow_lt w m
    rw [padDigits, padDigits, List.cons_lt_cons_iff,
      digitChar_lt_iff _ (div_pow_lt_ten hn) _ (div_pow_lt_ten hm),
      digitChar_inj _ (div_pow_lt_ten hn) _ (div_pow_lt_ten hm), ih hn' hm']
    -- a smaller first digit is a smaller quotient; an equal one leaves it to the remainders
    constructor
    · rintro (h | ⟨h, hlt⟩)
      · by_contra hle
        exact absurd (Nat.div_le_div_right (c := 10 ^ w) (not_lt.mp hle)) (not_le.mpr h)
      · rw [← hdn, ← hdm, h]
        exact Nat.add_lt_add_left hlt _
    · intro h
      rcases lt_or_eq_of_le (Nat.div_le_div_right (c := 10 ^ w) h.le) with hlt | heq
      · exact Or.inl hlt
      · refine Or.inr ⟨heq, ?_⟩
        rw [← hdn, ← hdm, heq] at h
        exact Nat.lt_of_add_lt_add_left h

/-! ## Fields with separators -/

/-- A format: the width of each field and the text that follows it. -/
abbrev FieldFormat := List (ℕ × List Char)

/-- The text of a list of field values. -/
def renderFields : FieldFormat → List ℕ → List Char
  | (w, sep) :: fmt, x :: xs => padDigits w x ++ (sep ++ renderFields fmt xs)
  | _, _ => []

/-- Every value fits the width of its field. -/
def FitsFormat (fmt : FieldFormat) (xs : List ℕ) : Prop :=
  List.Forall₂ (fun f x ↦ x < 10 ^ f.1) fmt xs

theorem length_renderFields {fmt : FieldFormat} {xs ys : List ℕ} (hx : FitsFormat fmt xs)
    (hy : FitsFormat fmt ys) : (renderFields fmt xs).length = (renderFields fmt ys).length := by
  induction hx generalizing ys with
  | nil => cases hy; rfl
  | cons _ _ ih =>
    cases hy with
    | cons _ htl => simp [renderFields, ih htl]

/-- **Fixed-width text sorts like its field values**, and equal fields leave the decision to what
follows. -/
theorem renderFields_append_lt_iff {fmt : FieldFormat} {xs ys : List ℕ} {s t : List Char}
    (hx : FitsFormat fmt xs) (hy : FitsFormat fmt ys) :
    renderFields fmt xs ++ s < renderFields fmt ys ++ t ↔ xs < ys ∨ xs = ys ∧ s < t := by
  induction hx generalizing ys with
  | nil => cases hy; simp [renderFields]
  | @cons f x fmt xs hxf _ ih =>
    cases hy with
    | @cons _ y _ ys hyf htl =>
      obtain ⟨w, sep⟩ := f
      simp only [renderFields, List.append_assoc]
      rw [append_lt_append_iff (by simp), append_lt_append_iff rfl, ih htl,
        padDigits_lt_iff hxf hyf, padDigits_inj hxf hyf, List.cons_lt_cons_iff, List.cons.injEq]
      simp only [lt_self_iff_false, false_or, true_and]
      tauto

/-! ## Fractions -/

/-- The value of fraction digits in units of the `n`-th decimal place; digits past it are dropped.
-/
def scaled : ℕ → List (Fin 10) → ℕ
  | 0, _ => 0
  | _ + 1, [] => 0
  | n + 1, d :: ds => d * 10 ^ n + scaled n ds

theorem scaled_lt (n : ℕ) (ds : List (Fin 10)) : scaled n ds < 10 ^ n := by
  induction n generalizing ds with
  | zero => simp [scaled]
  | succ n ih =>
    cases ds with
    | nil => simp [scaled]
    | cons d ds =>
      have hd : (d : ℕ) * 10 ^ n ≤ 9 * 10 ^ n := Nat.mul_le_mul_right _ (by omega)
      have := ih ds
      rw [scaled, pow_succ]
      omega

/-- The digit strings differ at a position both have, and there the first is smaller. -/
def DigitsLT : List (Fin 10) → List (Fin 10) → Prop
  | x :: a, y :: b => x < y ∨ x = y ∧ DigitsLT a b
  | _, _ => False

/-- `p` is `a` cut short: what `a` has after it is dropped. -/
def CutOf (p a : List (Fin 10)) : Prop := p <+: a ∧ p ≠ a

theorem DigitsLT.scaled_lt {a b : List (Fin 10)} (h : DigitsLT a b) {n : ℕ} (hn : b.length ≤ n) :
    scaled n a < scaled n b := by
  induction n generalizing a b with
  | zero =>
    obtain rfl := List.length_eq_zero_iff.mp (Nat.le_zero.mp hn)
    cases a <;> exact h.elim
  | succ n ih =>
    cases a with
    | nil => exact h.elim
    | cons x a =>
      cases b with
      | nil => exact h.elim
      | cons y b =>
        rw [scaled, scaled]
        rcases h with hlt | ⟨rfl, ht⟩
        -- a greater digit outweighs everything after it
        · have hxy : ((x : ℕ) + 1) * 10 ^ n ≤ (y : ℕ) * 10 ^ n := Nat.mul_le_mul_right _ hlt
          have := MsSecurity.scaled_lt n a
          rw [add_mul, one_mul] at hxy
          omega
        · exact Nat.add_lt_add_left (ih ht (by simpa using hn)) _

/-- Cutting digits off never raises the value. -/
theorem scaled_le_of_cut {p a : List (Fin 10)} (h : p <+: a) (n : ℕ) :
    scaled n p ≤ scaled n a := by
  induction n generalizing p a with
  | zero => simp [scaled]
  | succ n ih =>
    cases p with
    | nil => simp [scaled]
    | cons x p =>
      obtain ⟨r, rfl⟩ := h
      rw [List.cons_append, scaled, scaled]
      exact Nat.add_le_add_left (ih (List.prefix_append p r)) _

/-- Digits as text. -/
def digitText (ds : List (Fin 10)) : List Char := ds.map fun d : Fin 10 ↦ Nat.digitChar d

/-- Fraction digits as text: nothing at all, or a point and the digits; then the terminator. -/
def fractionText : List (Fin 10) → List Char
  | [] => ['Z']
  | d :: ds => '.' :: (digitText (d :: ds) ++ ['Z'])

private theorem digitChar_lt_terminator : ∀ d : Fin 10, Nat.digitChar d < 'Z' := by decide

private theorem digits_append_lt_iff (a b : List (Fin 10)) :
    digitText a ++ ['Z'] < digitText b ++ ['Z'] ↔ DigitsLT a b ∨ CutOf b a := by
  induction a generalizing b with
  | nil =>
    cases b with
    | nil => exact iff_of_false (lt_irrefl _) fun h ↦ h.elim id fun hc ↦ hc.2 rfl
    | cons y b =>
      have hy := digitChar_lt_terminator y
      simp [digitText, DigitsLT, CutOf, List.cons_lt_cons_iff, hy.not_gt, hy.ne']
  | cons x a ih =>
    cases b with
    | nil =>
      have hx := digitChar_lt_terminator x
      simp [digitText, CutOf, List.cons_lt_cons_iff, hx]
    | cons y b =>
      rw [digitText, digitText, List.map_cons, List.map_cons, List.cons_append, List.cons_append,
        List.cons_lt_cons_iff, ← digitText, ← digitText, ih b, digitChar_lt_iff _ x.isLt _ y.isLt,
        digitChar_inj _ x.isLt _ y.isLt, ← Fin.lt_def, ← Fin.ext_iff]
      simp only [DigitsLT, CutOf, List.cons_prefix_cons, ne_eq, List.cons.injEq]
      tauto

/-- **The text order of fractions.** A fraction sorts before another when it is smaller at a
position both have, or when the other is the same fraction cut short. -/
theorem fractionText_lt_iff (a b : List (Fin 10)) :
    fractionText a < fractionText b ↔ DigitsLT a b ∨ CutOf b a := by
  cases a with
  | nil =>
    cases b with
    | nil => simp [fractionText, DigitsLT, CutOf]
    | cons y b =>
      have hZ : ¬('Z' : Char) < '.' := by decide
      simp [fractionText, DigitsLT, CutOf, List.cons_lt_cons_iff, hZ]
  | cons x a =>
    cases b with
    | nil =>
      have hZ : ('.' : Char) < 'Z' := by decide
      simp [fractionText, CutOf, List.cons_lt_cons_iff, hZ]
    | cons y b =>
      rw [fractionText, fractionText, List.cons_lt_cons_iff]
      simp only [lt_self_iff_false, false_or, true_and]
      exact digits_append_lt_iff (x :: a) (y :: b)

theorem digitsLT_trichotomy (a b : List (Fin 10)) :
    DigitsLT a b ∨ DigitsLT b a ∨ a <+: b ∨ b <+: a := by
  induction a generalizing b with
  | nil => exact Or.inr (Or.inr (Or.inl List.nil_prefix))
  | cons x a ih =>
    cases b with
    | nil => exact Or.inr (Or.inr (Or.inr List.nil_prefix))
    | cons y b =>
      rcases lt_trichotomy x y with hlt | rfl | hgt
      · exact Or.inl (Or.inl hlt)
      · rcases ih b with h | h | h | h
        · exact Or.inl (Or.inr ⟨rfl, h⟩)
        · exact Or.inr (Or.inl (Or.inr ⟨rfl, h⟩))
        · exact Or.inr (Or.inr (Or.inl (List.cons_prefix_cons.mpr ⟨rfl, h⟩)))
        · exact Or.inr (Or.inr (Or.inr (List.cons_prefix_cons.mpr ⟨rfl, h⟩)))
      · exact Or.inr (Or.inl (Or.inl hgt))

theorem DigitsLT.not_cut {a b : List (Fin 10)} (h : DigitsLT a b) : ¬a <+: b := by
  induction a generalizing b with
  | nil => exact h.elim
  | cons x a ih =>
    cases b with
    | nil => exact h.elim
    | cons y b =>
      intro hp
      obtain ⟨rfl, hp'⟩ := List.cons_prefix_cons.mp hp
      rcases h with hlt | ⟨-, ht⟩
      · exact absurd hlt (lt_irrefl x)
      · exact ih ht hp'

end MsSecurity
