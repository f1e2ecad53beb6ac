import Mathlib.Order.Basic
import Mathlib.Tactic.Common

/-!
# Effectful programs and their weakest preconditions

A program here is a tree of requests to its environment: it has finished with a value, has raised an
exception, or asks a request and continues with the answer. Nothing is said about how requests are
answered, so the same program can be run alone, or be one of several whose requests interleave.

Reasoning goes through a `Contract`. It relates each request to a ghost state of the prover's
choice: what must hold when the request is made, and which ghost states its answer may lead to.
`Prog.wp` is the weakest precondition for a contract, and `Prog.wp_bind` and its neighbours compute
it along the program text. The invariant "what is left of this thread satisfies its `wp`" is then
the same for every thread and is preserved by one request at a time, whatever the others do in
between.
-/

namespace MsSecurity

/-- A program that asks requests `e : E`, reads answers `R e`, and ends with an `α` or raises an
`ε`. -/
inductive Prog (E : Type) (R : E → Type) (ε α : Type) : Type
  | pure (a : α)
  | throw (e : ε)
  | call (e : E) (k : R e → Prog E R ε α)

namespace Prog

variable {E : Type} {R : E → Type} {ε α β : Type}

/-- Sequencing: an exception skips the rest. -/
protected def bind : Prog E R ε α → (α → Prog E R ε β) → Prog E R ε β
  | .pure a, f => f a
  | .throw e, _ => .throw e
  | .call e k, f => .call e fun r ↦ (k r).bind f

instance : Monad (Prog E R ε) where
  pure := .pure
  bind := Prog.bind

/-- `try p except e: handler(e)`. -/
def tryCatch : Prog E R ε α → (ε → Prog E R ε α) → Prog E R ε α
  | .pure a, _ => .pure a
  | .throw e, h => h e
  | .call e k, h => .call e fun r ↦ (k r).tryCatch h

/-- A computation without requests. -/
def lift : Except ε α → Prog E R ε α
  | .ok a => .pure a
  | .error e => .throw e

/-- One request, for its answer. -/
def perform (e : E) : Prog E R ε (R e) := .call e .pure

theorem bind_assoc {γ : Type} (p : Prog E R ε α) (f : α → Prog E R ε β) (g : β → Prog E R ε γ) :
    p >>= f >>= g = p >>= fun a ↦ f a >>= g := by
  change (p.bind f).bind g = p.bind fun a ↦ (f a).bind g
  induction p with
  | pure a => rfl
  | throw e => rfl
  | call e k ih => exact congrArg (Prog.call e) (funext ih)

end Prog

/-- What a program promises of a request, and what it may rely on afterwards, over ghost states
`G`. -/
structure Contract (G : Type*) (E : Type) (R : E → Type) where
  /-- The request may be made in this ghost state. -/
  pre : G → E → Prop
  /-- The answer may leave this ghost state behind. -/
  post : G → (e : E) → R e → G → Prop

namespace Prog

variable {G : Type*} {E : Type} {R : E → Type} {ε α β : Type} {C : Contract G E R}

/-- The weakest precondition of a program for a contract: every request it makes is allowed, and
every way it can end satisfies `Q`. -/
def wp (C : Contract G E R) : Prog E R ε α → (G → Except ε α → Prop) → G → Prop
  | .pure a, Q, g => Q g (.ok a)
  | .throw e, Q, g => Q g (.error e)
  | .call e k, Q, g => C.pre g e ∧ ∀ r g', C.post g e r g' → (k r).wp C Q g'

@[simp] theorem wp_pure (Q : G → Except ε α → Prop) (g : G) (a : α) :
    wp C (Pure.pure a : Prog E R ε α) Q g ↔ Q g (.ok a) := Iff.rfl

@[simp] theorem wp_call (Q : G → Except ε α → Prop) (g : G) (e : E) (k : R e → Prog E R ε α) :
    wp C (.call e k) Q g ↔ C.pre g e ∧ ∀ r g', C.post g e r g' → wp C (k r) Q g' := Iff.rfl

@[simp] theorem wp_lift (Q : G → Except ε α → Prop) (g : G) (x : Except ε α) :
    wp C (lift x : Prog E R ε α) Q g ↔ Q g x := by
  cases x <;> exact Iff.rfl

/-- The consequence rule. -/
theorem wp_mono {Q Q' : G → Except ε α → Prop} (hQ : ∀ g x, Q g x → Q' g x) {p : Prog E R ε α}
    {g : G} (h : p.wp C Q g) : p.wp C Q' g := by
  induction p generalizing g with
  | pure a => exact hQ g _ h
  | throw e => exact hQ g _ h
  | call e k ih => exact ⟨h.1, fun r g' hg' ↦ ih r (h.2 r g' hg')⟩

/-- The sequencing rule. -/
theorem wp_bind (p : Prog E R ε α) (f : α → Prog E R ε β) (Q : G → Except ε β → Prop) (g : G) :
    wp C (p >>= f) Q g ↔ p.wp C (fun g' x ↦ match x with
      | .ok a => (f a).wp C Q g'
      | .error e => Q g' (.error e)) g := by
  change (p.bind f).wp C Q g ↔ _
  induction p generalizing g with
  | pure a => exact Iff.rfl
  | throw e => exact Iff.rfl
  | call e k ih =>
    simp only [Prog.bind, wp_call]
    exact and_congr_right fun _ ↦ forall_congr' fun r ↦ forall_congr' fun g' ↦
      imp_congr_right fun _ ↦ ih r g'

/-- The rule for a handler. -/
theorem wp_tryCatch (p : Prog E R ε α) (h : ε → Prog E R ε α) (Q : G → Except ε α → Prop) (g : G) :
    wp C (p.tryCatch h) Q g ↔ p.wp C (fun g' x ↦ match x with
      | .ok a => Q g' (.ok a)
      | .error e => (h e).wp C Q g') g := by
  induction p generalizing g with
  | pure a => exact Iff.rfl
  | throw e => exact Iff.rfl
  | call e k ih =>
    simp only [tryCatch, wp_call]
    exact and_congr_right fun _ ↦ forall_congr' fun r ↦ forall_congr' fun g' ↦
      imp_congr_right fun _ ↦ ih r g'

@[simp] theorem wp_perform (e : E) (Q : G → Except ε (R e) → Prop) (g : G) :
    wp C (perform e : Prog E R ε (R e)) Q g ↔
      C.pre g e ∧ ∀ r g', C.post g e r g' → Q g' (.ok r) := Iff.rfl

end Prog

namespace Contract

/-- A contract whose ghost states only grow while others act: what may be asked now may be asked
later, and what an answer may lead to later it may lead to now. -/
structure Stable {G : Type*} [Preorder G] {E : Type} {R : E → Type} (C : Contract G E R) :
    Prop where
  pre_mono : ∀ {g g' e}, g ≤ g' → C.pre g e → C.pre g' e
  post_mono : ∀ {g g' e r g''}, g ≤ g' → C.post g' e r g'' → C.post g e r g''

/-- **Stability.** What is left of a program keeps its precondition while the others move the ghost
state up. -/
theorem Stable.wp_mono {G : Type*} [Preorder G] {E : Type} {R : E → Type} {ε α : Type}
    {C : Contract G E R} (hC : C.Stable) {Q : G → Except ε α → Prop}
    (hQ : ∀ {g g' x}, g ≤ g' → Q g x → Q g' x) {p : Prog E R ε α} {g g' : G} (hg : g ≤ g')
    (h : p.wp C Q g) : p.wp C Q g' := by
  cases p with
  | pure a => exact hQ hg h
  | throw e => exact hQ hg h
  | call e k => exact ⟨hC.pre_mono hg h.1, fun r g'' hr ↦ h.2 r g'' (hC.post_mono hg hr)⟩

end Contract

end MsSecurity
