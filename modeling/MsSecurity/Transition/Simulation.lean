import Mathlib.Data.List.Basic
import Mathlib.Tactic.Common

/-!
# Forward simulation

A system here takes an operation to a result and a next state, and may have several ways to do so. A
run is observed through its operations and their results. If every step of one system is matched by
a step of another with the same observation, then so is every run, from related states to related
states.
-/

namespace MsSecurity

variable {σ τ O : Type*} {R : O → Type*}

/-- Steps from a state by an operation, with a result, to a state. -/
abbrev Steps (σ O : Type*) (R : O → Type*) := σ → (o : O) → R o → σ → Prop

/-- The steps lead from the first state to the last one, and this is what is seen of them. -/
inductive ObservedRun (step : Steps σ O R) : σ → List ((o : O) × R o) → σ → Prop
  | nil (s : σ) : ObservedRun step s [] s
  | cons {s t u : σ} {o : O} {r : R o} {rest : List ((o : O) × R o)} :
      step s o r t → ObservedRun step t rest u → ObservedRun step s (⟨o, r⟩ :: rest) u

/-- Every step by an operation in `ok` is matched between related states. -/
def Simulates (concrete : Steps σ O R) (abstract : Steps τ O R) (ok : O → Prop)
    (rel : σ → τ → Prop) : Prop :=
  ∀ s a o r t, rel s a → ok o → concrete s o r t → ∃ b, abstract a o r b ∧ rel t b

/-- **The simulation rule.** Runs are matched if steps are. -/
theorem Simulates.run {concrete : Steps σ O R} {abstract : Steps τ O R} {ok : O → Prop}
    {rel : σ → τ → Prop} (hsim : Simulates concrete abstract ok rel) {s t : σ} {a : τ}
    {observed : List ((o : O) × R o)} (h : ObservedRun concrete s observed t)
    (hok : ∀ x ∈ observed, ok x.1) (hrel : rel s a) :
    ∃ b, ObservedRun abstract a observed b ∧ rel t b := by
  induction h generalizing a with
  | nil s => exact ⟨a, .nil a, hrel⟩
  | cons hstep _ ih =>
    rw [List.forall_mem_cons] at hok
    obtain ⟨b, hb, hrel⟩ := hsim _ _ _ _ _ hrel hok.1 hstep
    obtain ⟨c, hc, hrel⟩ := ih hok.2 hrel
    exact ⟨c, .cons hb hc, hrel⟩

end MsSecurity
