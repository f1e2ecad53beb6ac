import MsSecurity.Transition.Program
import MsSecurity.Transition.Stateful

/-!
# Programs that run alone

A program of requests runs against a server, which answers every request at once and may change a
state of its own. Such a run is a stateful computation, and the map to it preserves sequencing, so
that the rules for the ends of stateful computations apply along the text of the program.
-/

namespace MsSecurity

/-- What answers the requests of a program, over states `W`. -/
abbrev Serves (E : Type) (R : E → Type) (W : Type) := (e : E) → W → R e × W

namespace Prog

variable {E : Type} {R : E → Type} {W ε α β : Type} {serve : Serves E R W}

/-- The run of a program against a server. -/
def exec (serve : Serves E R W) : Prog E R ε α → EStateM ε W α
  | .pure a => Pure.pure a
  | .throw e => throwThe ε e
  | .call e k => fun w ↦ (k (serve e w).1).exec serve (serve e w).2

section Rules

variable {w : W} {Q : Except ε α → W → Prop}

@[simp] theorem ends_exec_pure (a : α) :
    Ends (exec serve (Pure.pure a : Prog E R ε α)) w Q ↔ Q (.ok a) w := Iff.rfl

@[simp] theorem ends_exec_throw (e : ε) :
    Ends (exec serve (.throw e : Prog E R ε α)) w Q ↔ Q (.error e) w := Iff.rfl

@[simp] theorem ends_exec_lift (x : Except ε α) :
    Ends (exec serve (lift x : Prog E R ε α)) w Q ↔ Q x w := by
  cases x <;> exact Iff.rfl

@[simp] theorem ends_exec_perform (e : E) {Q : Except ε (R e) → W → Prop} :
    Ends (exec serve (perform e : Prog E R ε (R e))) w Q ↔ Q (.ok (serve e w).1) (serve e w).2 :=
  Iff.rfl

/-- The sequencing rule. -/
theorem ends_exec_bind (p : Prog E R ε α) (f : α → Prog E R ε β) {Q : Except ε β → W → Prop} :
    Ends (exec serve (p >>= f)) w Q ↔ Ends (exec serve p) w fun r v ↦ match r with
      | .ok a => Ends (exec serve (f a)) v Q
      | .error e => Q (.error e) v := by
  change Ends (exec serve (p.bind f)) w Q ↔ _
  induction p generalizing w with
  | pure a => exact Iff.rfl
  | throw e => exact Iff.rfl
  | call e k ih => exact ih (serve e w).1

theorem ends_exec_bind_of {p : Prog E R ε α} {f : α → Prog E R ε β} {P : Except ε α → W → Prop}
    {Q : Except ε β → W → Prop} (hp : Ends (exec serve p) w P)
    (hok : ∀ a v, P (.ok a) v → Ends (exec serve (f a)) v Q)
    (herror : ∀ e v, P (.error e) v → Q (.error e) v) : Ends (exec serve (p >>= f)) w Q := by
  rw [ends_exec_bind]
  refine hp.mono fun r v hP ↦ ?_
  cases r with
  | ok a => exact hok a v hP
  | error e => exact herror e v hP

end Rules

end Prog

end MsSecurity
