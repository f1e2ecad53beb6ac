import MsSecurity.Python.Value
import MsSecurity.Transition.Stateful

/-!
# Statements that raise and that catch

The statements of the source that decide where an exception goes: a call that may fail,
`except Exception`, which lets `SystemExit` through, and the decorator `retry`.
-/

namespace MsSecurity

variable {σ α : Type}

/-- A call that only may fail. -/
def attempt (fault : Option PyError) : EStateM PyError σ Unit := liftExcept <|
  match fault with
  | none => .ok ()
  | some e => .error e

/-- `try: x except Exception as e: h`. -/
def exceptWith (x : EStateM PyError σ α) (h : PyError → EStateM PyError σ α) :
    EStateM PyError σ α :=
  tryCatch x fun e ↦ if e.isException then h e else throw e

/-- `try: x except Exception: h`. -/
def exceptException (x h : EStateM PyError σ α) : EStateM PyError σ α := exceptWith x fun _ ↦ h

/-- `@retry(tries, exceptions=[…])`, less the waiting: after one of the exceptions `x` is run
again. -/
def retry (again : PyError → Bool) (x : EStateM PyError σ α) : ℕ → EStateM PyError σ α
  | 0 => x
  | tries + 1 => exceptWith x fun e ↦ if again e then retry again x tries else throw e

/-- How a request that changes something ends: it may raise, and have taken effect nevertheless. -/
structure RemoteChange where
  fault : Option PyError
  applied : Bool
  deriving DecidableEq

/-- What the change is made in is as `f` leaves it, or as it was. -/
def RemoteChange.apply (change : RemoteChange) (f : σ → σ) (s : σ) : σ :=
  if change.fault.isNone || change.applied then f s else s

/-- A change that is not made is one that raised. -/
theorem RemoteChange.apply_cases (change : RemoteChange) (f : σ → σ) (s : σ) :
    change.apply f s = f s ∨ change.apply f s = s ∧ ∃ e, change.fault = some e := by
  rw [RemoteChange.apply]
  cases hfault : change.fault with
  | none => exact Or.inl rfl
  | some e => cases change.applied with
    | true => exact Or.inl rfl
    | false => exact Or.inr ⟨rfl, e, rfl⟩

/-- The change is made. -/
def RemoteChange.Lands (change : RemoteChange) : Prop := change.fault = none ∨ change.applied

instance (change : RemoteChange) : Decidable change.Lands :=
  inferInstanceAs (Decidable (change.fault = none ∨ change.applied))

theorem RemoteChange.apply_of_lands {change : RemoteChange} (h : change.Lands)
    (f : σ → σ) (s : σ) : change.apply f s = f s := by
  refine if_pos (Bool.or_eq_true_iff.mpr (h.imp_left fun hfault ↦ ?_))
  rw [hfault, Option.isNone_none]

theorem RemoteChange.apply_of_not_lands {change : RemoteChange} (h : ¬change.Lands)
    (f : σ → σ) (s : σ) : change.apply f s = s := by
  refine if_neg fun happly ↦ h ((Bool.or_eq_true_iff.mp happly).imp_left fun hfault ↦ ?_)
  exact Option.isNone_iff_eq_none.mp hfault

/-- A request for the change `f`. -/
def remotely (change : RemoteChange) (f : σ → σ) : EStateM PyError σ Unit := do
  modify (change.apply f)
  attempt change.fault

section Rules

variable {s : σ} {Q : Except PyError α → σ → Prop}

theorem ends_attempt {fault : Option PyError} {Q : Except PyError Unit → σ → Prop} :
    Ends (attempt fault) s Q ↔ match fault with
      | none => Q (.ok ()) s
      | some e => Q (.error e) s := by
  unfold attempt
  rw [ends_liftExcept]
  cases fault <;> exact Iff.rfl

theorem ends_remotely {change : RemoteChange} {f : σ → σ} {Q : Except PyError Unit → σ → Prop} :
    Ends (remotely change f) s Q ↔ match change.fault with
      | none => Q (.ok ()) (f s)
      | some e => Q (.error e) (if change.applied then f s else s) := by
  rw [remotely, ends_bind, ends_modify]
  dsimp only
  rw [ends_attempt, RemoteChange.apply]
  cases change.fault with
  | none => exact Iff.rfl
  | some e => exact Iff.rfl

theorem ends_exceptWith {x : EStateM PyError σ α} {h : PyError → EStateM PyError σ α} :
    Ends (exceptWith x h) s Q ↔ Ends x s fun r t ↦ match r with
      | .ok a => Q (.ok a) t
      | .error e => (e.isException = true → Ends (h e) t Q) ∧
          (e.isException = false → Q (.error e) t) := by
  rw [exceptWith, ends_tryCatch]
  refine iff_of_eq (congrArg (Ends x s) (funext fun r ↦ funext fun t ↦ ?_))
  cases r with
  | ok a => rfl
  | error e => cases he : e.isException <;> simp [he]

theorem ends_exceptException {x h : EStateM PyError σ α} :
    Ends (exceptException x h) s Q ↔ Ends x s fun r t ↦ match r with
      | .ok a => Q (.ok a) t
      | .error e => (e.isException = true → Ends h t Q) ∧
          (e.isException = false → Q (.error e) t) := ends_exceptWith

/-- The rule for `retry`: what every try keeps and ends in. -/
theorem ends_retry {again : PyError → Bool} {x : EStateM PyError σ α} {P : σ → Prop}
    (hx : ∀ t, P t → Ends x t fun r u ↦ P u ∧ Q r u) (tries : ℕ) (h : P s) :
    Ends (retry again x tries) s fun r t ↦ P t ∧ Q r t := by
  induction tries generalizing s with
  | zero => exact hx s h
  | succ tries ih =>
    rw [retry, ends_exceptWith]
    refine (hx s h).mono fun r t hend ↦ ?_
    cases r with
    | ok a => exact hend
    | error e =>
      refine ⟨fun _ ↦ ?_, fun _ ↦ hend⟩
      split_ifs
      · exact ih hend.1
      · exact hend

theorem Preserves.exceptWith {β : Type} {f : σ → β} {x : EStateM PyError σ α}
    {h : PyError → EStateM PyError σ α} (hx : Preserves f x) (hh : ∀ e, Preserves f (h e)) :
    Preserves f (exceptWith x h) := by
  refine hx.tryCatch fun e ↦ ?_
  split
  · exact hh e
  · exact preserves_throw e

/-- What is raised is raised by the handler, or not an `Exception`. -/
theorem RaisesOnly.exceptWith {P P' : PyError → Prop} {x : EStateM PyError σ α}
    {h : PyError → EStateM PyError σ α} (hx : RaisesOnly P x)
    (hcaught : ∀ e, P e → RaisesOnly P' (h e)) (hnot : ∀ e, P e → e.isException = false → P' e) :
    RaisesOnly P' (exceptWith x h) := by
  intro s
  rw [ends_exceptWith]
  refine (hx s).mono fun r t he ↦ ?_
  cases r with
  | ok a => exact fun _ h ↦ absurd h.symm error_ne_ok
  | error e =>
    refine ⟨fun _ ↦ hcaught e (he e rfl) t, fun hfalse ↦ ?_⟩
    rintro _ ⟨⟩
    exact hnot e (he e rfl) hfalse

/-- A handler that never returns changes nothing about how `x` returns. -/
theorem exceptWith_eq_ok_iff {x : EStateM PyError σ α} {h : PyError → EStateM PyError σ α} {s t : σ}
    {a : α} (hh : ∀ e u, h e u ≠ .ok a t) : exceptWith x h s = .ok a t ↔ x s = .ok a t := by
  change EStateM.tryCatch x (fun e ↦ if e.isException then h e else throw e) s = _ ↔ _
  unfold EStateM.tryCatch
  cases x s with
  | ok b u => exact Iff.rfl
  | error e u =>
    refine iff_of_false (fun hx ↦ ?_) fun hx ↦ ?_
    · change (if e.isException = true then h e else throw e : EStateM PyError σ α) u = _ at hx
      split_ifs at hx
      · exact hh e u hx
      · cases hx
    · cases hx

/-- A handler that raises again. -/
theorem exceptWith_throw_eq_ok_iff {x : EStateM PyError σ α} {g : PyError → PyError} {s t : σ}
    {a : α} : exceptWith x (fun e ↦ throw (g e)) s = .ok a t ↔ x s = .ok a t := by
  refine exceptWith_eq_ok_iff ?_
  rintro e u ⟨⟩

end Rules

end MsSecurity
