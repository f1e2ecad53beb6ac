import MsSecurity.Transition.Stateful

/-!
# Computations side by side

A computation that works on a part of the state is one on the whole state, `zoom`. Two computations
agree if they end alike, in states that belong together; where one keeps a log that the other does
not, that says that the log changes nothing.
-/

namespace MsSecurity

variable {ε ε' σ τ α β : Type}

/-- How `x` ends, without the state it ends in. -/
def outcome (x : EStateM ε σ α) (s : σ) : Except ε α :=
  match x s with
  | .ok a _ => .ok a
  | .error e _ => .error e

/-- The state that `x` ends in. -/
def finalState (x : EStateM ε σ α) (s : σ) : σ :=
  match x s with
  | .ok _ t => t
  | .error _ t => t

/-- A computation on a part of the state, its exceptions renamed. -/
def zoom (part : σ → τ) (put : τ → σ → σ) (f : ε → ε') (x : EStateM ε τ α) : EStateM ε' σ α :=
  fun s ↦ match x (part s) with
    | .ok a t => .ok a (put t s)
    | .error e t => .error (f e) (put t s)

/-- From states that `R` relates, `x` and `y` end alike and in states that `S` relates. -/
def Agree (R S : σ → τ → Prop) (x : EStateM ε σ α) (y : EStateM ε τ α) : Prop :=
  ∀ s t, R s t → Ends x s fun r s' ↦ Ends y t fun r' t' ↦ r = r' ∧ S s' t'

theorem finalState_eq {x : EStateM ε σ α} {s t : σ} (h : Ends x s fun _ u ↦ u = t) :
    finalState x s = t := by
  unfold Ends at h
  unfold finalState
  cases hx : x s with
  | ok a u =>
    rw [hx] at h
    exact h
  | error e u =>
    rw [hx] at h
    exact h

theorem ends_zoom {part : σ → τ} {put : τ → σ → σ} {f : ε → ε'} {x : EStateM ε τ α} {s : σ}
    {Q : Except ε' α → σ → Prop} : Ends (zoom part put f x) s Q ↔
      Ends x (part s) fun r t ↦ Q (r.mapError f) (put t s) := by
  unfold Ends zoom
  cases x (part s) <;> exact Iff.rfl

theorem zoom_bind {part : σ → τ} {put : τ → σ → σ} {f : ε → ε'}
    (hpart : ∀ t s, part (put t s) = t) (hput : ∀ t u s, put u (put t s) = put u s)
    (x : EStateM ε τ α) (g : α → EStateM ε τ β) :
    zoom part put f (x >>= g) = zoom part put f x >>= fun a ↦ zoom part put f (g a) := by
  funext s
  change zoom part put f (EStateM.bind x g) s = EStateM.bind _ _ s
  unfold EStateM.bind zoom
  dsimp only
  cases x (part s) with
  | error e t => rfl
  | ok a t =>
    dsimp only
    rw [hpart]
    cases g a t with
    | ok b u => exact congrArg (EStateM.Result.ok b) (hput t u s).symm
    | error e u => exact congrArg (EStateM.Result.error (f e)) (hput t u s).symm

theorem preserves_zoom {part : σ → τ} {put : τ → σ → σ} {f : ε → ε'} {g : σ → β}
    (h : ∀ t s, g (put t s) = g s) (x : EStateM ε τ α) : Preserves g (zoom part put f x) :=
  fun s ↦ ends_zoom.mpr (Ends.intro (fun _ t _ ↦ h t s) fun _ t _ ↦ h t s)

theorem Preserves.zoom {part : σ → τ} {put : τ → σ → σ} {f : ε → ε'} {g : τ → β}
    {x : EStateM ε τ α} (hpart : ∀ t s, part (put t s) = t) (hx : Preserves g x) :
    Preserves (fun s ↦ g (part s)) (zoom part put f x) := fun s ↦
  ends_zoom.mpr <| (hx (part s)).mono fun _ t ht ↦ (congrArg g (hpart t s)).trans ht

section Agree

variable {R S T : σ → τ → Prop}

theorem agree_liftExcept (h : ∀ s t, R s t → S s t) (x : Except ε α) :
    Agree R S (liftExcept x) (liftExcept x) := fun s t hst ↦
  (ends_liftExcept x).mpr ((ends_liftExcept x).mpr ⟨rfl, h s t hst⟩)

theorem agree_pure (h : ∀ s t, R s t → S s t) (a : α) :
    Agree R S (pure a : EStateM ε σ α) (pure a) := fun s t hst ↦ ⟨rfl, h s t hst⟩

theorem agree_throw (h : ∀ s t, R s t → S s t) (e : ε) :
    Agree R S (throw e : EStateM ε σ α) (throw e) := fun s t hst ↦ ⟨rfl, h s t hst⟩

/-- A computation on a part of the state agrees with itself on that part alone. -/
theorem agree_zoom {part : σ → τ} {put : τ → σ → σ} (hpart : ∀ s t, R s t → part s = t)
    (hput : ∀ s t u, R s t → R (put u s) u) (x : EStateM ε τ α) :
    Agree R R (zoom part put id x) x := by
  intro s t hst
  obtain rfl := hpart s t hst
  refine ends_zoom.mpr (Ends.intro (fun a u h ↦ ?_) fun e u h ↦ ?_)
  · rw [Ends, h]
    exact ⟨rfl, hput s _ u hst⟩
  · rw [Ends, h]
    exact ⟨rfl, hput s _ u hst⟩

/-- The sequencing rule. Where the first parts raise, their ends are the ends of the whole. -/
theorem Agree.bind {x : EStateM ε σ α} {y : EStateM ε τ α} {f : α → EStateM ε σ β}
    {g : α → EStateM ε τ β} (hxy : Agree R S x y) (hST : ∀ s t, S s t → T s t)
    (hfg : ∀ a, Agree S T (f a) (g a)) : Agree R T (x >>= f) (y >>= g) := by
  intro s t hst
  rw [ends_bind]
  refine (hxy s t hst).mono fun r s' hr ↦ ?_
  cases r with
  | ok a =>
    obtain ⟨t', hy, hS⟩ := hr.exists_of_ok
    refine (hfg a s' t' hS).mono fun r₂ s₂ hr₂ ↦ ?_
    exact (ends_bind_of_ok hy).mpr hr₂
  | error e =>
    refine ends_bind.mpr (hr.mono ?_)
    rintro _ t' ⟨rfl, hS⟩
    exact ⟨rfl, hST _ _ hS⟩

theorem Agree.tryCatch {x : EStateM ε σ α} {y : EStateM ε τ α} {f : ε → EStateM ε σ α}
    {g : ε → EStateM ε τ α} (hxy : Agree R S x y) (hST : ∀ s t, S s t → T s t)
    (hfg : ∀ e, Agree S T (f e) (g e)) : Agree R T (tryCatch x f) (tryCatch y g) := by
  intro s t hst
  rw [ends_tryCatch]
  refine (hxy s t hst).mono fun r s' hr ↦ ?_
  cases r with
  | ok a =>
    refine ends_tryCatch.mpr (hr.mono ?_)
    rintro _ t' ⟨rfl, hS⟩
    exact ⟨rfl, hST _ _ hS⟩
  | error e =>
    cases hy : y t with
    | ok b t' => exact absurd (hr.of_ok hy).1 error_ne_ok
    | error e' t' =>
      obtain ⟨he, hS⟩ := hr.of_error hy
      obtain rfl := Except.error.inj he
      refine (hfg e s' t' hS).mono fun r₂ s₂ hr₂ ↦ ends_tryCatch.mpr ?_
      rw [Ends, hy]
      exact hr₂

end Agree

end MsSecurity
