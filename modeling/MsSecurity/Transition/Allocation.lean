import Mathlib.Algebra.BigOperators.Ring.Finset
import Mathlib.Algebra.Order.BigOperators.Group.Finset
import Mathlib.Algebra.Order.Ring.Nat
import Mathlib.Data.Finset.Card
import Mathlib.Tactic.Linarith
import Mathlib.Tactic.Ring

/-!
# Parts and their holders

Finitely many parts, each with a holder, one of whom stands for nobody. Parts pass from one holder
to another (`Transfer`). If a holder only takes what nobody has, or one part of a holder who has at
least two more, then the sum of squares of what everybody has, with a surcharge for what nobody has,
goes down (`Transfer.unrest_lt`), so that this happens only finitely often.
-/

namespace MsSecurity

namespace Allocation

variable {π κ : Type*} [DecidableEq κ]

/-- How many of the parts a holder has. -/
def holding (parts : Finset π) (holder : π → κ) (k : κ) : ℕ := (parts.filter (holder · = k)).card

/-- The moved parts pass from one holder to another; the others stay where they are. -/
structure Transfer (parts : Finset π) (source target : κ) (moved : Finset π)
    (before after : π → κ) : Prop where
  ne : source ≠ target
  subset : moved ⊆ parts
  before_eq : ∀ i ∈ moved, before i = source
  after_eq : ∀ i ∈ moved, after i = target
  stays : ∀ i ∈ parts, i ∉ moved → after i = before i

/-- What the distribution is from being at rest. -/
def unrest (parts : Finset π) (holders : Finset κ) (nobody : κ) (holder : π → κ) : ℕ :=
  ∑ k ∈ holders, holding parts holder k ^ 2 + 2 * parts.card * holding parts holder nobody

section Transfer

variable {parts moved : Finset π} {source target : κ} {before after : π → κ}

theorem holding_congr {k : κ} (h : ∀ i ∈ parts, before i = after i) :
    holding parts before k = holding parts after k :=
  congrArg Finset.card (Finset.filter_congr fun i hi ↦ by rw [h i hi])

theorem holding_le (k : κ) : holding parts before k ≤ parts.card := Finset.card_filter_le _ _

omit [DecidableEq κ] in
theorem Transfer.eq_or_eq (h : Transfer parts source target moved before after) {i : π}
    (hi : i ∈ parts) : after i = before i ∨ after i = target := by
  by_cases hmoved : i ∈ moved
  · exact Or.inr (h.after_eq i hmoved)
  · exact Or.inl (h.stays i hi hmoved)

theorem Transfer.holding_target (h : Transfer parts source target moved before after) :
    holding parts after target = holding parts before target + moved.card := by
  classical
  have hdisjoint : Disjoint (parts.filter (before · = target)) moved := by
    rw [Finset.disjoint_left]
    intro i hi hmoved
    exact h.ne ((h.before_eq i hmoved).symm.trans (Finset.mem_filter.mp hi).2)
  rw [holding, holding, ← Finset.card_union_of_disjoint hdisjoint]
  congr 1
  ext i
  rw [Finset.mem_filter, Finset.mem_union, Finset.mem_filter]
  by_cases hmoved : i ∈ moved
  · exact iff_of_true ⟨h.subset hmoved, h.after_eq i hmoved⟩ (Or.inr hmoved)
  · rw [or_iff_left hmoved]
    exact and_congr_right fun hi ↦ by rw [h.stays i hi hmoved]

theorem Transfer.holding_source (h : Transfer parts source target moved before after) :
    holding parts after source + moved.card = holding parts before source := by
  classical
  have hdisjoint : Disjoint (parts.filter (after · = source)) moved := by
    rw [Finset.disjoint_left]
    intro i hi hmoved
    exact h.ne ((Finset.mem_filter.mp hi).2.symm.trans (h.after_eq i hmoved))
  rw [holding, holding, ← Finset.card_union_of_disjoint hdisjoint]
  congr 1
  ext i
  rw [Finset.mem_filter, Finset.mem_union, Finset.mem_filter]
  by_cases hmoved : i ∈ moved
  · exact iff_of_true (Or.inr hmoved) ⟨h.subset hmoved, h.before_eq i hmoved⟩
  · rw [or_iff_left hmoved]
    exact and_congr_right fun hi ↦ by rw [h.stays i hi hmoved]

theorem Transfer.holding_other (h : Transfer parts source target moved before after) {k : κ}
    (hsource : k ≠ source) (htarget : k ≠ target) :
    holding parts after k = holding parts before k := by
  refine congrArg Finset.card (Finset.filter_congr fun i hi ↦ ?_)
  by_cases hmoved : i ∈ moved
  · rw [h.after_eq i hmoved, h.before_eq i hmoved]
    exact iff_of_false htarget.symm hsource.symm
  · rw [h.stays i hi hmoved]

end Transfer

section Unrest

variable {parts moved : Finset π} {holders : Finset κ} {nobody source target : κ}
  {before after : π → κ}

theorem unrest_congr (h : ∀ i ∈ parts, before i = after i) :
    unrest parts holders nobody before = unrest parts holders nobody after := by
  rw [unrest, unrest, holding_congr h]
  congr 1
  exact Finset.sum_congr rfl fun k _ ↦ by rw [holding_congr h]

/-- What passes from nobody calms the distribution down. -/
theorem Transfer.unrest_lt_of_nobody (h : Transfer parts nobody target moved before after)
    (hmoved : moved.Nonempty) (htarget : target ∈ holders) (hnobody : nobody ∉ holders) :
    unrest parts holders nobody after < unrest parts holders nobody before := by
  classical
  have hothers : ∑ k ∈ holders.erase target, holding parts after k ^ 2 =
      ∑ k ∈ holders.erase target, holding parts before k ^ 2 := by
    refine Finset.sum_congr rfl fun k hk ↦ ?_
    obtain ⟨hk, hmem⟩ := Finset.mem_erase.mp hk
    rw [h.holding_other (ne_of_mem_of_not_mem hmem hnobody) hk]
  rw [unrest, unrest, ← Finset.add_sum_erase _ _ htarget, ← Finset.add_sum_erase _ _ htarget,
    hothers, h.holding_target, ← h.holding_source]
  have hpositive := Finset.card_pos.mpr hmoved
  have hroom : holding parts before target + moved.card ≤ parts.card :=
    h.holding_target ▸ holding_le target
  nlinarith

/-- What passes to a holder from one that has at least two more calms the distribution down. -/
theorem Transfer.unrest_lt_of_holder (h : Transfer parts source target moved before after)
    (hmoved : moved.card = 1) (hsource : source ∈ holders) (htarget : target ∈ holders)
    (hnobody : nobody ∉ holders)
    (hless : holding parts before target + 2 ≤ holding parts before source) :
    unrest parts holders nobody after < unrest parts holders nobody before := by
  classical
  have hmem : target ∈ holders.erase source := Finset.mem_erase.mpr ⟨h.ne.symm, htarget⟩
  have hothers : ∑ k ∈ (holders.erase source).erase target, holding parts after k ^ 2 =
      ∑ k ∈ (holders.erase source).erase target, holding parts before k ^ 2 := by
    refine Finset.sum_congr rfl fun k hk ↦ ?_
    obtain ⟨hk, hk'⟩ := Finset.mem_erase.mp hk
    rw [h.holding_other (Finset.mem_erase.mp hk').1 hk]
  have hsame : holding parts after nobody = holding parts before nobody :=
    h.holding_other (ne_of_mem_of_not_mem hsource hnobody).symm
      (ne_of_mem_of_not_mem htarget hnobody).symm
  have hgain := h.holding_target
  have hloss := h.holding_source
  rw [hmoved] at hgain hloss
  rw [unrest, unrest, ← Finset.add_sum_erase _ _ hsource, ← Finset.add_sum_erase _ _ hsource,
    ← Finset.add_sum_erase _ _ hmem, ← Finset.add_sum_erase _ _ hmem, hothers, hsame, hgain,
    ← hloss]
  nlinarith

theorem sum_holding_add_le (parts : Finset π) (before : π → κ) (hnobody : nobody ∉ holders) :
    ∑ k ∈ holders, holding parts before k + holding parts before nobody ≤ parts.card := by
  classical
  rw [add_comm, ← Finset.sum_insert hnobody]
  have hfibers : ∀ i ∈ parts.filter (before · ∈ insert nobody holders),
      before i ∈ insert nobody holders := fun i hi ↦ (Finset.mem_filter.mp hi).2
  calc ∑ k ∈ insert nobody holders, holding parts before k
      = (parts.filter (before · ∈ insert nobody holders)).card := by
        rw [Finset.card_eq_sum_card_fiberwise hfibers]
        refine Finset.sum_congr rfl fun k hk ↦ congrArg Finset.card ?_
        rw [Finset.filter_filter]
        refine Finset.filter_congr fun i _ ↦ ⟨fun hik ↦ ⟨hik ▸ hk, hik⟩, And.right⟩
    _ ≤ parts.card := Finset.card_filter_le _ _

theorem unrest_le (parts : Finset π) (before : π → κ) (hnobody : nobody ∉ holders) :
    unrest parts holders nobody before ≤ 2 * parts.card ^ 2 := by
  have hsum := sum_holding_add_le parts before hnobody
  have hsquares : ∑ k ∈ holders, holding parts before k ^ 2 ≤
      (∑ k ∈ holders, holding parts before k) * parts.card := by
    rw [Finset.sum_mul]
    refine Finset.sum_le_sum fun k _ ↦ ?_
    rw [sq]
    exact Nat.mul_le_mul_left _ (holding_le k)
  calc unrest parts holders nobody before
      ≤ (∑ k ∈ holders, holding parts before k) * parts.card +
          2 * parts.card * holding parts before nobody := Nat.add_le_add_right hsquares _
    _ ≤ 2 * parts.card *
          (∑ k ∈ holders, holding parts before k + holding parts before nobody) := by
        rw [Nat.mul_add, Nat.mul_comm (∑ k ∈ holders, holding parts before k)]
        exact Nat.add_le_add_right (Nat.mul_le_mul_right _ (Nat.le_mul_of_pos_left _ two_pos)) _
    _ ≤ 2 * parts.card * parts.card := Nat.mul_le_mul_left _ hsum
    _ = 2 * parts.card ^ 2 := by ring

end Unrest

/-! ## Shares -/

section Shares

variable {parts : Finset π} {holders : Finset κ} {nobody : κ} {holder : π → κ}

theorem sum_holding (hall : ∀ i ∈ parts, holder i ∈ holders) :
    ∑ k ∈ holders, holding parts holder k = parts.card :=
  (Finset.card_eq_sum_card_fiberwise hall).symm

theorem exists_lt_holding (hall : ∀ i ∈ parts, holder i ∈ holders) {k : κ} (hk : k ∈ holders)
    {share : ℕ} (hshare : share * holders.card ≤ parts.card)
    (hless : holding parts holder k < share) : ∃ j ∈ holders, share < holding parts holder j := by
  by_contra hnone
  have hle : ∀ j ∈ holders, holding parts holder j ≤ share := fun j hj ↦
    not_lt.mp fun hlt ↦ hnone ⟨j, hj, hlt⟩
  have hlt := Finset.sum_lt_sum hle ⟨k, hk, hless⟩
  rw [sum_holding hall, Finset.sum_const_nat fun _ _ ↦ rfl, mul_comm] at hlt
  exact absurd hshare hlt.not_ge

/-- If every holder has an equal share, none has more than that and what is left over. -/
theorem holding_le_of_forall_le (hall : ∀ i ∈ parts, holder i ∈ holders) {share : ℕ}
    (hle : ∀ k ∈ holders, share ≤ holding parts holder k) {k : κ} (hk : k ∈ holders) :
    holding parts holder k + share * (holders.card - 1) ≤ parts.card := by
  classical
  rw [← sum_holding hall, ← Finset.add_sum_erase _ _ hk, ← Finset.card_erase_of_mem hk]
  refine Nat.add_le_add_left ?_ _
  calc share * (holders.erase k).card = ∑ _j ∈ holders.erase k, share := by
        rw [mul_comm, Finset.sum_const_nat fun _ _ ↦ rfl]
    _ ≤ ∑ j ∈ holders.erase k, holding parts holder j :=
        Finset.sum_le_sum fun j hj ↦ hle j (Finset.mem_of_mem_erase hj)

end Shares

end Allocation

end MsSecurity
