import MsSecurity.Transition.Program
import MsSecurity.Transition.Run

/-!
# Pools of interleaved programs

Any number of programs over one shared world. An action starts a program or lets one of them make
the request it is waiting with; nothing else is atomic, so the runs of a pool are the interleavings
of its programs, request by request. A program that is never scheduled again is a program that was
killed there, and needs no action of its own.

The pool is proved correct by a `Contract`, whose ghost state is what one program may rely on: a
view of the world for that program. `Pool.Sound` says that the world satisfies its invariant and
that what is left of every program satisfies its weakest precondition at its view. An action keeps
it when the world keeps the contract towards the program that acts and only raises the views of the
others.
-/

namespace MsSecurity

/-- A program in progress, with the call it came from. -/
structure Thread (K E : Type) (R : E → Type) (ε α : Type) where
  call : K
  rest : Prog E R ε α

/-- A world and the programs started over it, in the order of their start. -/
structure Pool (W K E : Type) (R : E → Type) (ε α : Type) where
  world : W
  threads : List (Thread K E R ε α)

/-- Start a program, or let one proceed; `choice` is what the environment decides about the
answer. -/
inductive PoolAction (K C : Type)
  | start (call : K)
  | act (thread : ℕ) (choice : C)

namespace Pool

variable {W K C E : Type} {R : E → Type} {ε α : Type}

/-- One action. `serve` answers the request of a thread and says what it does to the world, or
refuses it. -/
def step (body : K → Prog E R ε α) (serve : W → ℕ → (e : E) → C → Option (R e × W))
    (p : Pool W K E R ε α) : PoolAction K C → Option (Pool W K E R ε α)
  | .start call => some { p with threads := p.threads ++ [⟨call, body call⟩] }
  | .act i choice =>
    match p.threads[i]? with
    | some ⟨call, .call e next⟩ =>
      (serve p.world i e choice).map fun answer ↦
        ⟨answer.2, p.threads.set i ⟨call, next answer.1⟩⟩
    | _ => none

variable {body : K → Prog E R ε α} {serve : W → ℕ → (e : E) → C → Option (R e × W)}
  {p q : Pool W K E R ε α}

theorem step_act_eq_some_iff {i : ℕ} {choice : C} :
    p.step body serve (.act i choice) = some q ↔
      ∃ call e next r w, p.threads[i]? = some ⟨call, .call e next⟩ ∧
        serve p.world i e choice = some (r, w) ∧ q = ⟨w, p.threads.set i ⟨call, next r⟩⟩ := by
  rw [step]
  split
  · rename_i call e next hthread
    rw [Option.map_eq_some_iff]
    constructor
    · rintro ⟨⟨r, w⟩, hserve, rfl⟩
      exact ⟨call, e, next, r, w, hthread, hserve, rfl⟩
    · rintro ⟨call', e', next', r, w, hthread', hserve, rfl⟩
      obtain ⟨rfl, hprog⟩ := Thread.mk.inj (Option.some.inj (hthread.symm.trans hthread'))
      obtain ⟨rfl, hnext⟩ := Prog.call.inj hprog
      obtain rfl := eq_of_heq hnext
      exact ⟨(r, w), hserve, rfl⟩
  · rename_i hno
    constructor
    · exact fun h ↦ nomatch h
    · rintro ⟨call, e, next, r, w, hthread, -, -⟩
      exact absurd hthread (hno call e next)

/-! ## Soundness -/

variable {G : Type*} {contract : Contract G E R} {view : W → ℕ → G}
  {Q : K → G → Except ε α → Prop} {I : W → Prop}

/-- The world satisfies `I`, and every thread what is left of its obligation to end in `Q`. -/
structure Sound (contract : Contract G E R) (view : W → ℕ → G) (Q : K → G → Except ε α → Prop)
    (I : W → Prop) (p : Pool W K E R ε α) : Prop where
  world : I p.world
  threads : ∀ {i : ℕ} {t : Thread K E R ε α}, p.threads[i]? = some t →
    t.rest.wp contract (Q t.call) (view p.world i)

/-- Starting a program whose body meets its obligation. -/
theorem Sound.start (h : p.Sound contract view Q I) {call : K}
    (hbody : (body call).wp contract (Q call) (view p.world p.threads.length)) :
    Sound contract view Q I ⟨p.world, p.threads ++ [⟨call, body call⟩]⟩ where
  world := h.world
  threads := by
    intro i t ht
    rcases Nat.lt_or_ge i p.threads.length with hi | hi
    · rw [List.getElem?_append_left hi] at ht
      exact h.threads ht
    · rw [List.getElem?_append_right hi, List.getElem?_singleton] at ht
      split_ifs at ht with hzero
      obtain rfl := Option.some.inj ht
      obtain rfl : i = p.threads.length := by omega
      exact hbody

/-- **The scheduling rule.** If the world meets the contract towards the thread that acts, and
raises the views of the others, what is left of every thread still meets its obligation. -/
theorem Sound.act [Preorder G] (hstable : contract.Stable)
    (hQ : ∀ {call g g' x}, g ≤ g' → Q call g x → Q call g' x)
    (h : p.Sound contract view Q I) {i : ℕ} {choice : C}
    (hserve : ∀ {call e next r w}, p.threads[i]? = some ⟨call, .call e next⟩ →
      contract.pre (view p.world i) e → serve p.world i e choice = some (r, w) →
      I w ∧ contract.post (view p.world i) e r (view w i) ∧
        ∀ j, j ≠ i → view p.world j ≤ view w j)
    (hstep : p.step body serve (.act i choice) = some q) : q.Sound contract view Q I := by
  obtain ⟨call, e, next, r, w, hthread, hanswer, rfl⟩ := step_act_eq_some_iff.mp hstep
  have hwp := h.threads hthread
  obtain ⟨hI, hpost, hothers⟩ := hserve hthread hwp.1 hanswer
  refine ⟨hI, fun {j t} ht ↦ ?_⟩
  have ht : (p.threads.set i ⟨call, next r⟩)[j]? = some t := ht
  rw [List.getElem?_set] at ht
  split_ifs at ht with hij hlt
  -- the thread that acted: its precondition covers every answer the contract allows
  · obtain rfl := Option.some.inj ht
    subst hij
    exact hwp.2 r _ hpost
  -- any other thread: its view was only raised
  · exact hstable.wp_mono (Q := Q t.call) hQ (hothers j (Ne.symm hij)) (h.threads ht)

end Pool

end MsSecurity
