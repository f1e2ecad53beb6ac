import MsSecurity.Transition.Run

/-!
# Systems that settle

In every turn what is observed of the state stays the same, or a measure of it goes down. So it
changes only a bounded number of times (`Calming.changes_add_le`). If an actor whose turn changes
nothing is at rest, everybody is at rest for good once all have had enough turns
(`Settling.atRest_of_cycles`).
-/

namespace MsSecurity

variable {σ α ι β : Type*}

/-- A turn changes nothing that is observed, or lowers the measure of it. -/
structure Calming (step : σ → α → Option σ) (ok : σ → α → Prop) (Inv : σ → Prop) (observe : σ → β)
    (measure : β → ℕ) : Prop where
  inv : ∀ {s a t}, Inv s → ok s a → step s a = some t → Inv t
  lower : ∀ {s a t}, Inv s → ok s a → step s a = some t →
    observe t = observe s ∨ measure (observe t) < measure (observe s)

/-- The turns that change nothing are those of actors at rest. -/
structure Settling (step : σ → α → Option σ) (ok : σ → α → Prop) (Inv : σ → Prop) (observe : σ → β)
    (measure : β → ℕ) (actor : α → ι) (AtRest : ι → β → Prop) : Prop
    extends Calming step ok Inv observe measure where
  same_iff : ∀ {s a t}, Inv s → ok s a → step s a = some t →
    (observe t = observe s ↔ AtRest (actor a) (observe s))

/-- How many of the turns change what is observed. -/
def changes [DecidableEq β] (step : σ → α → Option σ) (observe : σ → β) : σ → List α → ℕ
  | _, [] => 0
  | s, a :: as =>
    match step s a with
    | some t => (if observe t = observe s then 0 else 1) + changes step observe t as
    | none => 0

variable {step : σ → α → Option σ} {ok : σ → α → Prop} {Inv : σ → Prop} {observe : σ → β}
  {measure : β → ℕ} {actor : α → ι} {AtRest : ι → β → Prop} {s t : σ} {as : List α}

/-- Every change lowers the measure. -/
theorem Calming.changes_add_le [DecidableEq β] (hcalming : Calming step ok Inv observe measure)
    (hs : Inv s) (h : Run step ok s as t) :
    changes step observe s as + measure (observe t) ≤ measure (observe s) := by
  induction h with
  | nil s => exact Nat.le_of_eq (Nat.zero_add _)
  | @cons s u t a as hok hstep _ ih =>
    have hrest := ih (hcalming.inv hs hok hstep)
    rw [changes, hstep]
    dsimp only
    rcases hcalming.lower hs hok hstep with hsame | hlower
    · rw [if_pos hsame, ← hsame, Nat.zero_add]
      exact hrest
    · have hne : observe u ≠ observe s := fun hsame ↦
        Nat.ne_of_lt hlower (congrArg measure hsame)
      rw [if_neg hne]
      omega

namespace Settling

theorem same_or_lower (hsettling : Settling step ok Inv observe measure actor AtRest) (hs : Inv s)
    (h : Run step ok s as t) :
    Inv t ∧ (observe t = observe s ∧ (∀ a ∈ as, AtRest (actor a) (observe s)) ∨
      measure (observe t) < measure (observe s)) := by
  induction h with
  | nil s => exact ⟨hs, Or.inl ⟨rfl, fun _ ha ↦ absurd ha List.not_mem_nil⟩⟩
  | @cons s u t a as hok hstep _ ih =>
    obtain ⟨ht, hrest⟩ := ih (hsettling.inv hs hok hstep)
    refine ⟨ht, ?_⟩
    rcases hsettling.lower hs hok hstep with hsame | hlower
    · have ha := (hsettling.same_iff hs hok hstep).mp hsame
      rw [hsame] at hrest
      exact hrest.imp_left fun ⟨hsame', has⟩ ↦ ⟨hsame', List.forall_mem_cons.mpr ⟨ha, has⟩⟩
    · refine Or.inr ?_
      rcases hrest with ⟨hsame, -⟩ | hlower'
      · rwa [hsame]
      · exact Nat.lt_trans hlower' hlower

theorem observe_eq_of_atRest (hsettling : Settling step ok Inv observe measure actor AtRest)
    (actors : ι → Prop) (hs : Inv s) (h : Run step ok s as t)
    (hactors : ∀ {s a}, ok s a → actors (actor a)) (hrest : ∀ i, actors i → AtRest i (observe s)) :
    observe t = observe s := by
  induction h with
  | nil s => rfl
  | @cons s u t a as hok hstep _ ih =>
    have hsame := (hsettling.same_iff hs hok hstep).mpr (hrest _ (hactors hok))
    exact (ih (hsettling.inv hs hok hstep) (hsame ▸ hrest)).trans hsame

/-- **Settling.** A run of more cycles than the measure of its start, in each of which every actor
has a turn, ends with every actor at rest. -/
theorem atRest_of_cycles (hsettling : Settling step ok Inv observe measure actor AtRest)
    (actors : ι → Prop) (hactors : ∀ {s a}, ok s a → actors (actor a)) {cycles : List (List α)}
    (hs : Inv s) (h : Run step ok s cycles.flatten t)
    (hturns : ∀ cycle ∈ cycles, ∀ i, actors i → ∃ a ∈ cycle, actor a = i)
    (hmany : measure (observe s) < cycles.length) :
    Inv t ∧ ∀ i, actors i → AtRest i (observe t) := by
  induction cycles generalizing s with
  | nil => exact absurd hmany (Nat.not_lt_zero _)
  | cons cycle cycles ih =>
    rw [List.forall_mem_cons] at hturns
    obtain ⟨u, hcycle, hrest⟩ := Run.exists_of_append h
    obtain ⟨hu, ⟨hsame, hatRest⟩ | hlower⟩ := hsettling.same_or_lower hs hcycle
    · -- a cycle without a change: everybody is at rest from here on
      have hall : ∀ i, actors i → AtRest i (observe u) := by
        intro i hi
        obtain ⟨a, ha, rfl⟩ := hturns.1 i hi
        exact hsame ▸ hatRest a ha
      have hlater := hsettling.observe_eq_of_atRest actors hu hrest hactors hall
      exact ⟨(hsettling.same_or_lower hu hrest).1, fun i hi ↦ hlater ▸ hall i hi⟩
    · refine ih hu hrest hturns.2 ?_
      rw [List.length_cons] at hmany
      omega

end Settling

end MsSecurity
