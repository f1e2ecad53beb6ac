import Mathlib.Data.List.Basic
import Mathlib.Data.List.Induction
import Mathlib.Tactic.Common

/-!
# Runs of a labelled transition system

A system is a partial function `step : σ → α → Option σ`: an action is enabled in a state or it is
not, and an enabled action has one outcome. Whatever the environment decides, an answer, a failure,
a fresh value, is part of the action, so that nondeterminism is in the choice of actions alone and a
concrete run can be computed.

Assumptions about the environment are kept apart from the step function. A run carries a guard
`ok : σ → α → Prop` that every action of it satisfies in the state it is taken in; a claim about all
runs under an assumption is a claim about the runs with that guard, and strengthening an assumption
is strengthening the guard.
-/

namespace MsSecurity

variable {σ α : Type*}

/-- The actions `as` lead from the first state to the last one, and `ok` allows each where it is
taken. -/
inductive Run (step : σ → α → Option σ) (ok : σ → α → Prop) : σ → List α → σ → Prop
  | nil (s : σ) : Run step ok s [] s
  | cons {s t u : σ} {a : α} {as : List α} :
      ok s a → step s a = some t → Run step ok t as u → Run step ok s (a :: as) u

namespace Run

variable {step : σ → α → Option σ} {ok : σ → α → Prop}

theorem append {s t u : σ} {as bs : List α} (h : Run step ok s as t) (h' : Run step ok t bs u) :
    Run step ok s (as ++ bs) u := by
  induction h with
  | nil s => exact h'
  | cons hok hstep _ ih => exact .cons hok hstep (ih h')

/-- A run of two parts passes through a state between them. -/
theorem exists_of_append {s u : σ} {as bs : List α} (h : Run step ok s (as ++ bs) u) :
    ∃ t, Run step ok s as t ∧ Run step ok t bs u := by
  induction as generalizing s with
  | nil => exact ⟨s, .nil s, h⟩
  | cons a as ih =>
    cases h with
    | cons hok hstep htail =>
      obtain ⟨t, hfirst, hsecond⟩ := ih htail
      exact ⟨t, .cons hok hstep hfirst, hsecond⟩

/-- **The invariant rule.** What one allowed step preserves, every run preserves. -/
theorem invariant {Inv : σ → Prop}
    (hstep : ∀ {s a t}, Inv s → ok s a → step s a = some t → Inv t)
    {s t : σ} {as : List α} (h : Run step ok s as t) (hs : Inv s) : Inv t := by
  induction h with
  | nil s => exact hs
  | cons hok ha _ ih => exact ih (hstep hs hok ha)

/-- The two-state form: a preorder that one step respects relates the ends of every run. -/
theorem relates {Inv : σ → Prop} {r : σ → σ → Prop} (hrefl : ∀ s, Inv s → r s s)
    (htrans : ∀ {s t u}, r s t → r t u → r s u)
    (hstep : ∀ {s a t}, Inv s → ok s a → step s a = some t → Inv t ∧ r s t)
    {s t : σ} {as : List α} (h : Run step ok s as t) (hs : Inv s) : r s t := by
  induction h with
  | nil s => exact hrefl s hs
  | cons hok ha _ ih =>
    obtain ⟨ht, hr⟩ := hstep hs hok ha
    exact htrans hr (ih ht)

/-- **The exact invariant rule**, for steps that are always enabled: where a step keeps the
invariant if and only if it is allowed, the invariant holds all along exactly the runs whose steps
are. -/
theorem invariant_foldl_iff {f : σ → α → σ} {Inv : σ → Prop}
    (hstep : ∀ s a, Inv s → (Inv (f s a) ↔ ok s a)) {s : σ} (hs : Inv s) {as : List α} :
    (∀ before, before <+: as → Inv (before.foldl f s)) ↔
      ∀ before a, before ++ [a] <+: as → ok (before.foldl f s) a := by
  constructor
  · intro hall before a hprefix
    have hafter := hall _ hprefix
    rw [List.foldl_concat] at hafter
    exact (hstep _ a (hall before ((List.prefix_append before [a]).trans hprefix))).mp hafter
  · intro hok before hprefix
    induction before using List.reverseRecOn with
    | nil => exact hs
    | append_singleton before a ih =>
      rw [List.foldl_concat]
      exact (hstep _ a (ih ((List.prefix_append before [a]).trans hprefix))).mpr
        (hok before a hprefix)

/-! ## Computed runs -/

/-- The state that actions lead to, if each is enabled. -/
def exec (step : σ → α → Option σ) : σ → List α → Option σ
  | s, [] => some s
  | s, a :: as => (step s a).bind fun t ↦ exec step t as

/-- The guard holds of each action where it is taken. -/
def Along (step : σ → α → Option σ) (ok : σ → α → Prop) : σ → List α → Prop
  | _, [] => True
  | s, a :: as => ok s a ∧ ∀ t, step s a = some t → Along step ok t as

theorem of_exec {s t : σ} (as : List α) (h : exec step s as = some t)
    (hok : Along step ok s as) : Run step ok s as t := by
  induction as generalizing s with
  | nil =>
    obtain rfl := Option.some.inj h
    exact .nil s
  | cons a as ih =>
    obtain ⟨u, hu, htail⟩ := Option.bind_eq_some_iff.mp h
    exact .cons hok.1 hu (ih htail (hok.2 u hu))

/-- The steps a guard allows, where that can be computed. -/
def guarded (step : σ → α → Option σ) (ok : σ → α → Prop) [∀ s a, Decidable (ok s a)] (s : σ)
    (a : α) : Option σ :=
  if ok s a then step s a else none

theorem of_exec_guarded [∀ s a, Decidable (ok s a)] {s t : σ} (as : List α)
    (h : exec (guarded step ok) s as = some t) : Run step ok s as t := by
  induction as generalizing s with
  | nil =>
    obtain rfl := Option.some.inj h
    exact .nil s
  | cons a as ih =>
    obtain ⟨u, hu, htail⟩ := Option.bind_eq_some_iff.mp h
    rw [guarded] at hu
    split_ifs at hu with hok
    exact .cons hok hu (ih htail)

end Run

end MsSecurity
