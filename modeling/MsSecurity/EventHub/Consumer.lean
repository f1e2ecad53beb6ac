import MsSecurity.EventHub.Progress

/-!
# The consumer of a partition

The SDK hands each batch of a partition to `_on_event_batch`, which puts the events through
`_select_elements` one by one and then stores a checkpoint of the last event received. A batch that
raises, or is killed, stores none.

The second half is the store those calls run against: the answers to their requests, any of which
may fail, also after it took effect.
-/

namespace MsSecurity

/-! ## The callback -/

/-- The SDK's `PartitionContext`. -/
structure PartitionContext where
  hub : HubId
  partitionId : ℕ
  lastReceivedEvent : Option HubEvent

namespace PartitionContext

/-- The checkpoint of an event. -/
def checkpoint (context : PartitionContext) (event : HubEvent) : Checkpoint where
  hub := context.hub
  partitionId := context.partitionId
  offset := event.offset
  sequenceNumber := event.sequenceNumber

/-- `PartitionContext.update_checkpoint`. -/
def updateCheckpoint (context : PartitionContext) (event : Option HubEvent) : StoreProg Unit :=
  match event.or context.lastReceivedEvent with
  | some event => KVCheckpointStore.updateCheckpoint (context.checkpoint event)
  | none => return ()

end PartitionContext

namespace EventHubConsumerHandler

/-- The loop of `_on_event_batch`. -/
def selectEach (partitionId : ℕ) : List HubEvent → StoreProg Unit
  | [] => return ()
  | event :: events => do
    let answer ← Prog.perform (Request.selectElements partitionId event)
    Prog.lift answer
    selectEach partitionId events

/-- `_on_event_batch`. An empty batch, which the SDK hands over when nothing arrived in time, stores
nothing. -/
def onEventBatch (context : PartitionContext) (eventBatch : List HubEvent) : StoreProg Unit := do
  if eventBatch.isEmpty then return ()
  else
    selectEach context.partitionId eventBatch
    context.updateCheckpoint none

end EventHubConsumerHandler

/-! ## Its obligation -/

namespace Progress

variable {G : Type*} [Preorder G] {P : Progress G} {g : G}

theorem wp_selectEach {partitionId : ℕ} {events : List HubEvent}
    {Q : G → Except PyError Unit → Prop} (herror : ∀ g' e, g ≤ g' → Q g' (.error e))
    (hok : ∀ g', g ≤ g' → (∀ event ∈ events, P.Processed g' partitionId event) → Q g' (.ok ())) :
    (EventHubConsumerHandler.selectEach partitionId events).wp P.contract Q g := by
  induction events generalizing g Q with
  | nil => exact hok g le_rfl fun _ h ↦ absurd h List.not_mem_nil
  | cons event events ih =>
    rw [EventHubConsumerHandler.selectEach, Prog.wp_bind, Prog.wp_perform]
    refine ⟨trivial, fun r g' ⟨hle, hr⟩ ↦ ?_⟩
    dsimp only
    rw [Prog.wp_bind, Prog.wp_lift]
    match r, hr with
    | .error e, _ => exact herror g' e hle
    | .ok _, hr =>
      refine ih (fun g'' e hle' ↦ herror g'' e (hle.trans hle')) fun g'' hle' hevents ↦ ?_
      refine hok g'' (hle.trans hle') fun e he ↦ ?_
      rcases List.mem_cons.mp he with rfl | he
      · exact P.processed_mono hle' (hr rfl)
      · exact hevents e he

/-- A batch whose last event may be stored once all of it is processed. -/
theorem wp_onEventBatch {context : PartitionContext} {eventBatch : List HubEvent}
    {Q : G → Except PyError Unit → Prop} (htrusted : P.Trusted g)
    (hlast : context.lastReceivedEvent = eventBatch.getLast?)
    (hmay : ∀ g' event, g ≤ g' → eventBatch.getLast? = some event →
      (∀ e ∈ eventBatch, P.Processed g' context.partitionId e) →
      P.May g' (context.checkpoint event))
    (hQ : ∀ g' x, g ≤ g' →
      (x = .ok () → ∀ e ∈ eventBatch, P.Processed g' context.partitionId e) → Q g' x) :
    (EventHubConsumerHandler.onEventBatch context eventBatch).wp P.contract Q g := by
  rw [EventHubConsumerHandler.onEventBatch]
  split_ifs with hempty
  · refine hQ g _ le_rfl fun _ e he ↦ ?_
    rw [List.isEmpty_iff.mp hempty] at he
    exact absurd he List.not_mem_nil
  · rw [Prog.wp_bind]
    refine wp_selectEach (fun g' e hle ↦ hQ g' _ hle fun h ↦ nomatch h) fun g' hle hall ↦ ?_
    rw [PartitionContext.updateCheckpoint, Option.none_or, hlast]
    match h : eventBatch.getLast? with
    | none => exact hQ g' _ hle fun _ ↦ hall
    | some event =>
      refine wp_updateCheckpoint (P.trusted_mono hle htrusted) (hmay g' event hle h hall)
        fun g'' x hle' ↦ hQ g'' x (hle.trans hle') fun _ e he ↦ ?_
      exact P.processed_mono hle' (hall e he)

end Progress

/-! ## The store it runs against -/

/-- How a request turned out: what `uuid4` and `time` returned, whether it raised, and whether it
took effect nevertheless. -/
structure Outcome where
  stamp : String × ℤ
  fault : Option PyError
  applied : Bool
  deriving DecidableEq

namespace Outcome

/-- An answer without a value. -/
def unit (outcome : Outcome) : Except PyError Unit :=
  match outcome.fault with
  | some e => .error e
  | none => .ok ()

/-- The answer to a request, the document being as it is. -/
def answer (outcome : Outcome) (document : Option (List Record)) : (e : Request) → Answer e
  | .get => match outcome.fault with
    | some e => .error e
    | none => .ok document
  | .update _ _ => outcome.unit
  | .delete => outcome.unit
  | .stamp => outcome.stamp
  | .selectElements _ _ => outcome.unit

def takesEffect (outcome : Outcome) : Bool := outcome.fault.isNone || outcome.applied

/-- The document after a request. -/
def documentAfter (outcome : Outcome) (document : Option (List Record)) :
    Request → Option (List Record)
  | .update _ records => if outcome.takesEffect then some records else document
  | .delete => if outcome.takesEffect then none else document
  | .get => document
  | .stamp => document
  | .selectElements _ _ => document

variable {outcome : Outcome}

theorem documentAfter_eq_some {document : Option (List Record)} {e : Request}
    {records : List Record} (h : outcome.documentAfter document e = some records) :
    document = some records ∨ ∃ change, e = .update change records := by
  cases e with
  | update change written =>
    rw [documentAfter] at h
    split_ifs at h
    · obtain rfl := Option.some.inj h
      exact Or.inr ⟨change, rfl⟩
    · exact Or.inl h
  | delete =>
    rw [documentAfter] at h
    split_ifs at h
    exact Or.inl h
  | get => exact Or.inl h
  | stamp => exact Or.inl h
  | selectElements p event => exact Or.inl h

theorem unit_eq_ok_iff : outcome.unit = .ok () ↔ outcome.fault = none := by
  rw [unit]
  cases outcome.fault with
  | none => exact iff_of_true rfl rfl
  | some e => exact iff_of_false (fun h ↦ nomatch h) (fun h ↦ nomatch h)

theorem takesEffect_of_unit (h : outcome.unit = .ok ()) : outcome.takesEffect := by
  rw [takesEffect, unit_eq_ok_iff.mp h]
  rfl

theorem eq_of_answer_get {document : Option (List Record)} {records : List Record}
    (h : outcome.answer document .get = .ok (some records)) : document = some records := by
  rw [answer] at h
  split at h
  · cases h
  · exact Except.ok.inj h

end Outcome

/-- A write that was allowed holds good progress once its checkpoint counts as stored. -/
theorem Progress.good_of_pre {G : Type*} [Preorder G] {P : Progress G} {g g' : G} {change : Change}
    {records : List Record} (hpre : P.contract.pre g (.update change records)) (hle : g ≤ g')
    (hmay : ∀ c, change = .checkpoint c → P.May g c → P.Good g' c.progress) :
    ∀ record ∈ records, P.Good g' record.progress := by
  intro record hrecord
  rcases hpre.2 record hrecord with hgood | ⟨c, hc, hcmay, heq⟩
  · exact P.good_mono hle hgood
  · rw [heq]
    exact hmay c hc hcmay

end MsSecurity
