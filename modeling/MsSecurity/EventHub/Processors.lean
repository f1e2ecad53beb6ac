import MsSecurity.EventHub.ProcessorInvariant

/-!
# Event processors that share a store

Any number of event processors read one event hub and keep their ownerships and checkpoints in one
document, which may be created again and deleted meanwhile. What their receivers hand over is not
assumed to be in order here: it follows from the code of the SDK, and from a service whose links
deliver in order what comes after an offset.

## Main results

* `ProcessorSystem.atLeastOnce_of_run`: what is stored has been processed, and no receiver skips an
  event.
* `ProcessorSystem.findsConsumers_of_run`: no receive loop misses a consumer in the dictionary.
-/

namespace MsSecurity

open ConsumerPool

/-- The processors of an event hub, and the calls that construct the store or delete its
document. -/
structure ProcessorSystem where
  world : ConsumerWorld
  upkeep : List (StoreProg Unit)
  processors : List EventProcessor

/-- A thread that is killed never acts again. -/
inductive ProcessorAction
  | construct (partitionIds : List ℕ)
  | deleteCheckpoint
  | upkeep (i : ℕ) (outcome : Outcome)
  | launch (ownerId : String)
  | stop (i : ℕ)
  | receive (i : ℕ) (choice : ReceiveChoice)
  | balance (i : ℕ) (choice : BalanceChoice)

namespace ProcessorSystem

/-- One step of some thread. -/
def step (hub : Hub) (s : ProcessorSystem) : ProcessorAction → Option ProcessorSystem
  | .construct partitionIds =>
    some { s with upkeep := s.upkeep ++ [KVCheckpointStore.init partitionIds] }
  | .deleteCheckpoint => some { s with upkeep := s.upkeep ++ [KVCheckpointStore.deleteCheckpoint] }
  | .upkeep i outcome => do
    let rest ← s.upkeep[i]?
    let (rest, w) ← s.world.advance outcome rest
    return { s with world := w, upkeep := s.upkeep.set i rest }
  | .launch ownerId =>
    some { s with processors := s.processors ++ [EventProcessor.start hub.id ownerId] }
  | .stop i => do
    let x ← s.processors[i]?
    return { s with processors := s.processors.set i { x with running := false } }
  | .receive i choice => do
    let x ← s.processors[i]?
    let (y, w) ← x.receiveStep hub s.world x.receiving choice
    return { s with world := w, processors := s.processors.set i y }
  | .balance i choice => do
    let x ← s.processors[i]?
    let (y, w) ← x.balanceStep s.world x.balancing choice
    return { s with world := w, processors := s.processors.set i y }

/-- Every new link starts where it is asked to. -/
def Serves (hub : Hub) (s : ProcessorSystem) : ProcessorAction → Prop
  | .receive i choice => ∀ x ∈ s.processors[i]?, x.Serves hub choice
  | _ => True

/-- The invariant of the system. -/
structure Sound (hub : Hub) (s : ProcessorSystem) : Prop where
  world : AtLeastOnce hub s.world
  upkeep : ∀ rest ∈ s.upkeep,
    rest.wp (progress hub).contract (fun _ _ ↦ True) (known s.world)
  processors : ∀ x ∈ s.processors, x.Sound hub (known s.world)

variable {hub : Hub} {s t : ProcessorSystem}

theorem Sound.set (h : s.Sound hub) {i : ℕ} {x : EventProcessor} {w : ConsumerWorld}
    (hworld : AtLeastOnce hub w) (hx : x.Sound hub (known w)) (hle : known s.world ≤ known w) :
    Sound hub { s with world := w, processors := s.processors.set i x } where
  world := hworld
  upkeep rest hrest := (progress hub).contract_stable.wp_mono (fun _ _ ↦ trivial) hle
    (h.upkeep rest hrest)
  processors y hy := by
    rcases List.mem_or_eq_of_mem_set hy with hy | rfl
    · exact (h.processors y hy).mono hle
    · exact hx

theorem Sound.startUpkeep (h : s.Sound hub) {rest : StoreProg Unit}
    (hrest : rest.wp (progress hub).contract (fun _ _ ↦ True) (known s.world)) :
    Sound hub { s with upkeep := s.upkeep ++ [rest] } where
  world := h.world
  upkeep rest' hmem := by
    rcases List.mem_append.mp hmem with hmem | hmem
    · exact h.upkeep rest' hmem
    · rw [List.mem_singleton.mp hmem]
      exact hrest
  processors := h.processors

theorem Sound.step {a : ProcessorAction} (h : s.Sound hub) (hserves : s.Serves hub a)
    (hstep : s.step hub a = some t) : t.Sound hub := by
  cases a with
  | construct partitionIds =>
    obtain rfl := Option.some.inj hstep
    exact h.startUpkeep (Progress.wp_init trivial fun _ _ _ ↦ trivial)
  | deleteCheckpoint =>
    obtain rfl := Option.some.inj hstep
    exact h.startUpkeep (Progress.wp_deleteCheckpoint fun _ _ ↦ trivial)
  | upkeep i outcome =>
    obtain ⟨rest, hrest, hstep⟩ := Option.bind_eq_some_iff.mp hstep
    obtain ⟨⟨rest', w⟩, hadvance, hstep⟩ := Option.bind_eq_some_iff.mp hstep
    obtain rfl := Option.some.inj hstep
    obtain ⟨hworld, hrest', hle⟩ :=
      advance_sound h.world (h.upkeep rest (List.mem_of_getElem? hrest)) hadvance
    refine ⟨hworld, fun rest'' hmem ↦ ?_, fun x hx ↦ (h.processors x hx).mono hle⟩
    rcases List.mem_or_eq_of_mem_set hmem with hmem | rfl
    · exact (progress hub).contract_stable.wp_mono (fun _ _ ↦ trivial) hle (h.upkeep rest'' hmem)
    · exact hrest'
  | launch ownerId =>
    obtain rfl := Option.some.inj hstep
    refine ⟨h.world, h.upkeep, fun x hx ↦ ?_⟩
    rcases List.mem_append.mp hx with hx | hx
    · exact h.processors x hx
    · rw [List.mem_singleton.mp hx]
      exact EventProcessor.sound_start ownerId
  | stop i =>
    obtain ⟨x, hx, hstep⟩ := Option.bind_eq_some_iff.mp hstep
    obtain rfl := Option.some.inj hstep
    have hsound := h.processors x (List.mem_of_getElem? hx)
    exact h.set h.world (hsound.balance rfl rfl hsound.balancing) le_rfl
  | receive i choice =>
    obtain ⟨x, hx, hstep⟩ := Option.bind_eq_some_iff.mp hstep
    obtain ⟨⟨y, w⟩, hreceive, hstep⟩ := Option.bind_eq_some_iff.mp hstep
    obtain rfl := Option.some.inj hstep
    obtain ⟨hworld, hy, hle⟩ := (h.processors x (List.mem_of_getElem? hx)).receiveStep h.world
      (hserves x hx) hreceive
    exact h.set hworld hy hle
  | balance i choice =>
    obtain ⟨x, hx, hstep⟩ := Option.bind_eq_some_iff.mp hstep
    obtain ⟨⟨y, w⟩, hbalance, hstep⟩ := Option.bind_eq_some_iff.mp hstep
    obtain rfl := Option.some.inj hstep
    obtain ⟨hworld, hy, hle⟩ := (h.processors x (List.mem_of_getElem? hx)).balanceStep h.world
      hbalance
    exact h.set hworld hy hle

theorem sound_of_run {as : List ProcessorAction} (hworld : AtLeastOnce hub s.world)
    (hupkeep : s.upkeep = []) (hprocessors : s.processors = [])
    (hrun : Run (step hub) (Serves hub) s as t) : t.Sound hub := by
  have hinit : s.Sound hub := by
    refine ⟨hworld, fun rest hrest ↦ ?_, fun x hx ↦ ?_⟩
    · rw [hupkeep] at hrest
      exact absurd hrest List.not_mem_nil
    · rw [hprocessors] at hx
      exact absurd hx List.not_mem_nil
  exact hrun.invariant (fun h hok hstep ↦ h.step hok hstep) hinit

/-- Every event below the link of a consumer that is in use has been processed, or is in the hands
of its callback or in its buffer. -/
def SkipsNothing (hub : Hub) (s : ProcessorSystem) : Prop :=
  ∀ x ∈ s.processors, ∀ partitionId consumer first,
    x.consumers.lookup partitionId = some consumer → ¬x.receiving.Abandons partitionId →
      consumer.link = some first → ∀ j < first,
        (partitionId, hub.event partitionId j) ∈ s.world.processed ∨
          j ∈ x.receiving.handled partitionId ∨ j ∈ consumer.messageBuffer

/-- **At-least-once processing by the SDK's processors.** In every run of any number of them, from a
document whose offsets have been processed or from none, whatever fails, is stopped, killed or
interleaves, and however links break and are opened again: every stored offset is empty, or every
event of its partition up to and including it has been through a completed `_select_elements` call;
and no receiver skips an event. -/
theorem atLeastOnce_of_run {as : List ProcessorAction} (hworld : AtLeastOnce hub s.world)
    (hupkeep : s.upkeep = []) (hprocessors : s.processors = [])
    (hrun : Run (step hub) (Serves hub) s as t) :
    AtLeastOnce hub t.world ∧ t.SkipsNothing hub := by
  have hsound := sound_of_run hworld hupkeep hprocessors hrun
  exact ⟨hsound.world, fun x hx _ _ _ hlookup hnot hlink _ hj ↦
    (hsound.processors x hx).mem_of_lt hlookup hnot hlink hj⟩

/-- The receive loop visits and deletes no consumer twice in a pass, and finds each in the
dictionary. -/
def FindsConsumers (x : EventProcessor) : Prop :=
  x.receiving.awaited.Nodup ∧
    ∀ p ∈ x.receiving.awaited, ∃ consumer, x.consumers.lookup p = some consumer

/-- **No missing consumer.** In every such run, no receive loop looks for a consumer that the other
thread or it itself has taken away. -/
theorem findsConsumers_of_run {as : List ProcessorAction} (hworld : AtLeastOnce hub s.world)
    (hupkeep : s.upkeep = []) (hprocessors : s.processors = [])
    (hrun : Run (step hub) (Serves hub) s as t) : ∀ x ∈ t.processors, FindsConsumers x := by
  intro x hx
  have hsound := (sound_of_run hworld hupkeep hprocessors hrun).processors x hx
  exact ⟨hsound.nodup_awaited, fun p hp ↦ hsound.exists_lookup hp⟩

/-! ## A run

A link breaks while an event is in the buffer, and the next link delivers the event once more. -/

section LinkBreaks

instance (partitionId : ℕ) (offset : String) (first : ℕ) :
    Decidable (numberedHub.StartsAt partitionId offset first) :=
  decidable_of_iff (if offset = "-1" then first = 0 else ∃ k < first, toString k = offset ∧
    first = k + 1) <| by
      rw [Hub.StartsAt]
      split_ifs with hbeginning
      · exact Iff.rfl
      · exact ⟨fun ⟨k, _, hk⟩ ↦ ⟨k, hk⟩, fun ⟨k, hk, hfirst⟩ ↦
          ⟨k, hfirst ▸ Nat.lt_succ_self k, hk, hfirst⟩⟩

instance (x : EventProcessor) (choice : ReceiveChoice) : Decidable (x.Serves numberedHub choice) :=
  inferInstanceAs (Decidable (∀ p ∈ x.connecting, p.2.link = none → ∀ first ∈ choice.opens,
    numberedHub.StartsAt p.1 p.2.offset first))

instance (s : ProcessorSystem) : (a : ProcessorAction) → Decidable (s.Serves numberedHub a)
  | .receive i choice =>
    inferInstanceAs (Decidable (∀ x ∈ s.processors[i]?, x.Serves numberedHub choice))
  | .construct _ => isTrue trivial
  | .deleteCheckpoint => isTrue trivial
  | .upkeep _ _ => isTrue trivial
  | .launch _ => isTrue trivial
  | .stop _ => isTrue trivial
  | .balance _ _ => isTrue trivial

/-- A processor claims the only partition and creates its consumer. -/
def untilCreated : List ProcessorAction :=
  [.construct [0], .upkeep 0 done, .upkeep 0 done, .upkeep 0 done, .launch "a",
    .balance 0 (.claim (.ok [0]) 0 KVCheckpointStore.someDraws)] ++
  List.replicate 5 (.balance 0 (.answer done)) ++
  [.balance 0 .go, .balance 0 (.answer done), .balance 0 .go, .balance 0 (.create 0 none),
    .balance 0 .go, .balance 0 .go]

/-- Two events are received and processed. -/
def untilProcessed : List ProcessorAction :=
  [.receive 0 .go, .receive 0 .go, .receive 0 (.attempt ⟨some 0, 2, none⟩),
    .receive 0 (.clock true)] ++ List.replicate 4 (.receive 0 (.answer done)) ++
  [.receive 0 .go, .receive 0 .go]

/-- The link breaks after the next event; another link delivers it again, and one more. -/
def untilRedelivered : List ProcessorAction :=
  [.receive 0 .go, .receive 0 .go, .receive 0 (.attempt ⟨none, 1, some (.retried true)⟩),
    .receive 0 (.attempt ⟨some 2, 2, none⟩), .receive 0 (.clock true)] ++
  List.replicate 5 (.receive 0 (.answer done)) ++ [.receive 0 .go]

theorem exists_run_redelivered : ∃ t, Run (step numberedHub) (Serves numberedHub)
      ⟨⟨none, []⟩, [], []⟩ (untilCreated ++ untilProcessed ++ untilRedelivered) t ∧
    t.processors.length = 1 ∧ t.world.document = some [⟨0, "a", "e0", 0, "3", 3⟩] := by
  obtain ⟨t, ht, hends⟩ := Option.map_eq_some_iff.mp (show
    (Run.exec (Run.guarded (step numberedHub) (Serves numberedHub)) ⟨⟨none, []⟩, [], []⟩
      (untilCreated ++ untilProcessed ++ untilRedelivered)).map
        (fun t ↦ (t.processors.length, t.world.document)) =
          some (1, some [⟨0, "a", "e0", 0, "3", 3⟩]) by decide +kernel)
  obtain ⟨hlength, hdocument⟩ := Prod.mk.inj hends
  exact ⟨t, Run.of_exec_guarded _ ht, hlength, hdocument⟩

theorem atLeastOnce_none : AtLeastOnce numberedHub ⟨none, []⟩ :=
  fun _ h ↦ absurd h.symm (Option.some_ne_none _)

theorem atLeastOnce_of_run_redelivered : ∃ t, Run (step numberedHub) (Serves numberedHub)
      ⟨⟨none, []⟩, [], []⟩ (untilCreated ++ untilProcessed ++ untilRedelivered) t ∧
    t.world.document = some [⟨0, "a", "e0", 0, "3", 3⟩] ∧
      AtLeastOnce numberedHub t.world ∧ t.SkipsNothing numberedHub := by
  obtain ⟨t, hrun, -, hdocument⟩ := exists_run_redelivered
  exact ⟨t, hrun, hdocument, atLeastOnce_of_run atLeastOnce_none rfl rfl hrun⟩

theorem findsConsumers_of_run_redelivered : ∃ t, Run (step numberedHub) (Serves numberedHub)
      ⟨⟨none, []⟩, [], []⟩ (untilCreated ++ untilProcessed ++ untilRedelivered) t ∧
    t.processors.length = 1 ∧ ∀ x ∈ t.processors, FindsConsumers x := by
  obtain ⟨t, hrun, hlength, -⟩ := exists_run_redelivered
  exact ⟨t, hrun, hlength, findsConsumers_of_run atLeastOnce_none rfl rfl hrun⟩

end LinkBreaks

end ProcessorSystem

end MsSecurity
