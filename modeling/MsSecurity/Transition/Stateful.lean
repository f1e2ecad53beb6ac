import Mathlib.Tactic.Common

/-!
# Ends of stateful computations

A computation in `EStateM ε σ` carries its state through exceptions: what was done before one was
raised stays done. `Ends x s Q` says that `x`, started in `s`, ends in a result and a state that
satisfy `Q`, whichever way it ends. The rules below take a computation apart along its text, so that
a function gets one such statement and its callers use that.
-/

namespace MsSecurity

variable {ε σ α β : Type}

/-- However `x` ends from `s`, with a value or an exception, `Q` holds of that and of the state. -/
def Ends (x : EStateM ε σ α) (s : σ) (Q : Except ε α → σ → Prop) : Prop :=
  match x s with
  | .ok a t => Q (.ok a) t
  | .error e t => Q (.error e) t

/-- A computation that does not touch the state. -/
def liftExcept (x : Except ε α) : EStateM ε σ α := fun s ↦
  match x with
  | .ok a => .ok a s
  | .error e => .error e s

theorem error_ne_ok {e : ε} {a : α} : (.error e : Except ε α) ≠ .ok a := by
  intro h
  cases h

section Rules

variable {s : σ} {Q Q' : Except ε α → σ → Prop}

@[simp] theorem ends_pure (a : α) : Ends (pure a : EStateM ε σ α) s Q ↔ Q (.ok a) s := Iff.rfl

@[simp] theorem ends_throw (e : ε) : Ends (throw e : EStateM ε σ α) s Q ↔ Q (.error e) s := Iff.rfl

@[simp] theorem ends_liftExcept (x : Except ε α) :
    Ends (liftExcept x : EStateM ε σ α) s Q ↔ Q x s := by
  cases x <;> exact Iff.rfl

@[simp] theorem ends_get {Q : Except ε σ → σ → Prop} :
    Ends (get : EStateM ε σ σ) s Q ↔ Q (.ok s) s := Iff.rfl

@[simp] theorem ends_modify {f : σ → σ} {Q : Except ε Unit → σ → Prop} :
    Ends (modify f : EStateM ε σ Unit) s Q ↔ Q (.ok ()) (f s) := Iff.rfl

/-- The sequencing rule: an exception skips the rest. -/
theorem ends_bind {x : EStateM ε σ α} {f : α → EStateM ε σ β} {Q : Except ε β → σ → Prop} :
    Ends (x >>= f) s Q ↔ Ends x s fun r t ↦ match r with
      | .ok a => Ends (f a) t Q
      | .error e => Q (.error e) t := by
  change (match EStateM.bind x f s with
    | .ok a t => Q (.ok a) t
    | .error e t => Q (.error e) t) ↔ _
  unfold Ends EStateM.bind
  cases x s <;> exact Iff.rfl

theorem ends_bind_of_ok {x : EStateM ε σ α} {f : α → EStateM ε σ β} {a : α} {t : σ}
    {Q : Except ε β → σ → Prop} (hx : x s = .ok a t) : Ends (x >>= f) s Q ↔ Ends (f a) t Q := by
  rw [ends_bind]
  conv_lhs => rw [Ends, hx]

theorem bind_eq_ok_iff_exists {x : EStateM ε σ α} {f : α → EStateM ε σ β} {b : β} {t : σ} :
    (x >>= f) s = .ok b t ↔ ∃ a u, x s = .ok a u ∧ f a u = .ok b t := by
  change EStateM.bind x f s = .ok b t ↔ _
  unfold EStateM.bind
  cases x s with
  | ok a u =>
    constructor
    · exact fun h ↦ ⟨a, u, rfl, h⟩
    · rintro ⟨_, _, ⟨⟩, h⟩
      exact h
  | error e u =>
    constructor
    · exact fun h ↦ (nomatch h)
    · rintro ⟨_, _, ⟨⟩, _⟩

theorem bind_eq_error_iff_exists {x : EStateM ε σ α} {f : α → EStateM ε σ β} {e : ε} {t : σ} :
    (x >>= f) s = .error e t ↔
      x s = .error e t ∨ ∃ a u, x s = .ok a u ∧ f a u = .error e t := by
  change EStateM.bind x f s = .error e t ↔ _
  unfold EStateM.bind
  cases x s with
  | ok a u => simp
  | error e u => simp

theorem ends_get_bind {f : σ → EStateM ε σ β} {Q : Except ε β → σ → Prop} :
    Ends (get >>= f) s Q ↔ Ends (f s) s Q := Iff.rfl

theorem liftExcept_ok_bind (a : α) (f : α → EStateM ε σ β) : liftExcept (.ok a) >>= f = f a := rfl

theorem liftExcept_eq_ok_iff {x : Except ε α} {a : α} {t : σ} :
    liftExcept x s = .ok a t ↔ x = .ok a ∧ s = t := by
  cases x with
  | ok b => simp [liftExcept]
  | error e => simp [liftExcept]

/-- The rule for a handler, which starts in the state the exception left. -/
theorem ends_tryCatch {x : EStateM ε σ α} {h : ε → EStateM ε σ α} :
    Ends (tryCatch x h) s Q ↔ Ends x s fun r t ↦ match r with
      | .ok a => Q (.ok a) t
      | .error e => Ends (h e) t Q := by
  change (match EStateM.tryCatch x h s with
    | .ok a t => Q (.ok a) t
    | .error e t => Q (.error e) t) ↔ _
  unfold Ends EStateM.tryCatch
  cases x s <;> exact Iff.rfl

/-- The consequence rule. -/
theorem Ends.mono {x : EStateM ε σ α} (h : Ends x s Q) (hQ : ∀ r t, Q r t → Q' r t) :
    Ends x s Q' := by
  unfold Ends at *
  cases hx : x s with
  | ok a t => rw [hx] at h; exact hQ _ _ h
  | error e t => rw [hx] at h; exact hQ _ _ h

theorem Ends.and {x : EStateM ε σ α} (h : Ends x s Q) (h' : Ends x s Q') :
    Ends x s fun r t ↦ Q r t ∧ Q' r t := by
  unfold Ends at *
  cases hx : x s with
  | ok a t => rw [hx] at h h'; exact ⟨h, h'⟩
  | error e t => rw [hx] at h h'; exact ⟨h, h'⟩

/-- What is shown of each end holds. -/
theorem Ends.intro {x : EStateM ε σ α} (hok : ∀ a t, x s = .ok a t → Q (.ok a) t)
    (herror : ∀ e t, x s = .error e t → Q (.error e) t) : Ends x s Q := by
  unfold Ends
  cases hx : x s with
  | ok a t => exact hok a t hx
  | error e t => exact herror e t hx

/-- How a closed computation ends can be evaluated. -/
instance [hQ : ∀ r t, Decidable (Q r t)] (x : EStateM ε σ α) : Decidable (Ends x s Q) :=
  show Decidable (match x s with | .ok a t => Q (.ok a) t | .error e t => Q (.error e) t) from
    match x s with
    | .ok a t => hQ (.ok a) t
    | .error e t => hQ (.error e) t

/-- A computation ends in some way. -/
theorem Ends.exists {x : EStateM ε σ α} (h : Ends x s Q) : ∃ r t, Q r t := by
  unfold Ends at h
  cases hx : x s with
  | ok a t => rw [hx] at h; exact ⟨_, _, h⟩
  | error e t => rw [hx] at h; exact ⟨_, _, h⟩

/-- The end of a computation, and what holds of it. -/
theorem Ends.exists_end {x : EStateM ε σ α} (h : Ends x s Q) :
    ∃ r t, Ends x s (fun r' t' ↦ r = r' ∧ t = t') ∧ Q r t := by
  unfold Ends at h ⊢
  cases hx : x s with
  | ok a t => rw [hx] at h; exact ⟨_, _, ⟨rfl, rfl⟩, h⟩
  | error e t => rw [hx] at h; exact ⟨_, _, ⟨rfl, rfl⟩, h⟩

theorem Ends.exists_of_ok {x : EStateM ε σ α} {a : α} {P : σ → Prop}
    (h : Ends x s fun r t ↦ .ok a = r ∧ P t) : ∃ t, x s = .ok a t ∧ P t := by
  unfold Ends at h
  cases hx : x s with
  | ok b t =>
    rw [hx] at h
    obtain rfl := Except.ok.inj h.1
    exact ⟨t, rfl, h.2⟩
  | error e t =>
    rw [hx] at h
    exact absurd h.1.symm error_ne_ok

theorem Ends.iff_of_eq {x : EStateM ε σ α} {r : Except ε α} {t : σ}
    (h : Ends x s fun r' t' ↦ r' = r ∧ t' = t) : Ends x s Q ↔ Q r t := by
  constructor
  · intro hQ
    obtain ⟨_, _, ⟨rfl, rfl⟩, hQ⟩ := (h.and hQ).exists
    exact hQ
  · intro hQ
    exact h.mono fun r' t' ⟨hr, ht⟩ ↦ hr ▸ ht ▸ hQ

theorem Ends.of_ok {x : EStateM ε σ α} {a : α} {t : σ} (h : Ends x s Q) (hx : x s = .ok a t) :
    Q (.ok a) t := by
  unfold Ends at h
  rwa [hx] at h

theorem Ends.of_error {x : EStateM ε σ α} {e : ε} {t : σ} (h : Ends x s Q)
    (hx : x s = .error e t) : Q (.error e) t := by
  unfold Ends at h
  rwa [hx] at h

end Rules

/-! ## What holds however a computation ends -/

/-- However `x` ends, `f` of the state is what it was. -/
def Preserves (f : σ → β) (x : EStateM ε σ α) : Prop := ∀ s, Ends x s fun _ t ↦ f t = f s

/-- What `x` raises satisfies `P`. -/
def RaisesOnly (P : ε → Prop) (x : EStateM ε σ α) : Prop :=
  ∀ s, Ends x s fun r _ ↦ ∀ e, r = .error e → P e

/-- From a state with `P`, `x` ends in one with `P`. -/
def Maintains (P : σ → Prop) (x : EStateM ε σ α) : Prop := ∀ s, P s → Ends x s fun _ t ↦ P t

section Preserves

variable {γ : Type} {f : σ → γ}

theorem preserves_pure (a : α) : Preserves f (pure a : EStateM ε σ α) := fun _ ↦ rfl

theorem preserves_throw (e : ε) : Preserves f (throw e : EStateM ε σ α) := fun _ ↦ rfl

theorem preserves_get : Preserves f (get : EStateM ε σ σ) := fun _ ↦ rfl

theorem preserves_liftExcept (x : Except ε α) : Preserves f (liftExcept x : EStateM ε σ α) :=
  fun _ ↦ (ends_liftExcept x).mpr rfl

theorem preserves_modify {g : σ → σ} (h : ∀ s, f (g s) = f s) :
    Preserves f (modify g : EStateM ε σ Unit) := fun s ↦ h s

/-- A step before the others that preserves `f`. -/
theorem Preserves.ends_bind {x : EStateM ε σ α} {g : α → EStateM ε σ β} {s : σ}
    {Q : Except ε β → σ → Prop} (hx : Preserves f x) (herror : ∀ e t, f t = f s → Q (.error e) t)
    (hok : ∀ a t, f t = f s → Ends (g a) t Q) : Ends (x >>= g) s Q := by
  rw [MsSecurity.ends_bind]
  refine (hx s).mono fun r t hst ↦ ?_
  cases r with
  | ok a => exact hok a t hst
  | error e => exact herror e t hst

theorem Preserves.bind {x : EStateM ε σ α} {g : α → EStateM ε σ β} (hx : Preserves f x)
    (hg : ∀ a, Preserves f (g a)) : Preserves f (x >>= g) := fun _ ↦
  hx.ends_bind (fun _ _ hst ↦ hst) fun a t hst ↦ (hg a t).mono fun _ _ htu ↦ htu.trans hst

theorem Preserves.tryCatch {x : EStateM ε σ α} {h : ε → EStateM ε σ α} (hx : Preserves f x)
    (hh : ∀ e, Preserves f (h e)) : Preserves f (tryCatch x h) := by
  intro s
  rw [ends_tryCatch]
  refine (hx s).mono fun r t hst ↦ ?_
  cases r with
  | ok a => exact hst
  | error e => exact (hh e t).mono fun _ _ htu ↦ htu.trans hst

theorem Preserves.maintains {x : EStateM ε σ α} (hx : Preserves f x) (p : γ → Prop) :
    Maintains (fun s ↦ p (f s)) x := fun s hs ↦
  (hx s).mono fun _ t (ht : f t = f s) ↦ (congrArg p ht).mpr hs

theorem Preserves.of_ok {x : EStateM ε σ α} {s t : σ} {a : α} (hx : Preserves f x)
    (h : x s = .ok a t) : f t = f s := Ends.of_ok (hx s) h

end Preserves

section Maintains

variable {P : σ → Prop}

theorem maintains_pure (a : α) : Maintains P (pure a : EStateM ε σ α) := fun _ ↦ id

theorem maintains_liftExcept (x : Except ε α) : Maintains P (liftExcept x : EStateM ε σ α) :=
  fun _ hs ↦ (ends_liftExcept x).mpr hs

theorem Maintains.bind {x : EStateM ε σ α} {g : α → EStateM ε σ β} (hx : Maintains P x)
    (hg : ∀ a, Maintains P (g a)) : Maintains P (x >>= g) := by
  intro s hs
  rw [ends_bind]
  refine (hx s hs).mono fun r t ht ↦ ?_
  cases r with
  | ok a => exact hg a t ht
  | error e => exact ht

end Maintains

section RaisesOnly

variable {P : ε → Prop}

theorem raisesOnly_pure (a : α) : RaisesOnly P (pure a : EStateM ε σ α) :=
  fun _ _ h ↦ absurd h.symm error_ne_ok

theorem raisesOnly_throw {e : ε} (h : P e) : RaisesOnly P (throw e : EStateM ε σ α) := by
  rintro s _ ⟨⟩
  exact h

theorem raisesOnly_get : RaisesOnly P (get : EStateM ε σ σ) :=
  fun _ _ h ↦ absurd h.symm error_ne_ok

theorem raisesOnly_modify (g : σ → σ) : RaisesOnly P (modify g : EStateM ε σ Unit) :=
  fun _ _ h ↦ absurd h.symm error_ne_ok

theorem raisesOnly_liftExcept {x : Except ε α} (h : ∀ e, x = .error e → P e) :
    RaisesOnly P (liftExcept x : EStateM ε σ α) := fun _ ↦ (ends_liftExcept x).mpr h

theorem RaisesOnly.bind {x : EStateM ε σ α} {g : α → EStateM ε σ β} (hx : RaisesOnly P x)
    (hg : ∀ a, RaisesOnly P (g a)) : RaisesOnly P (x >>= g) := by
  intro s
  rw [ends_bind]
  refine (hx s).mono fun r t h ↦ ?_
  cases r with
  | ok a => exact hg a t
  | error e =>
    rintro _ ⟨⟩
    exact h e rfl

end RaisesOnly

end MsSecurity
