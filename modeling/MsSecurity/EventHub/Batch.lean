import MsSecurity.EventHub.Consumer
import MsSecurity.EventHub.Selection
import MsSecurity.Transition.Execution

/-!
# A batch of events

`_on_event_batch` puts each event of a batch through `_select_elements` and then updates the
checkpoint, so that an event whose selection raises keeps the whole batch from being checkpointed,
and it is read again. The callback is the program of `EventHub.Consumer`, run here against a store
and a writer that do not fail. Which bodies are harmless is a matter of the selection alone
(`ends_selectElements_eq_ok_iff`).

## Main result

* `Delivery.onEventBatch_stores_iff`: when a batch is checkpointed.
-/

namespace MsSecurity

/-- An event as it is received. -/
structure EventData extends HubEvent where
  body : Body

/-- The SDK keeps the last event of a batch before it hands the batch over. -/
def PartitionContext.received (context : PartitionContext) (batch : List HubEvent) :
    PartitionContext :=
  { context with lastReceivedEvent := batch.getLast?.or context.lastReceivedEvent }

/-- The documents before and after a batch is checkpointed: the first record of the partition has
the position of the last event, and everything else is as it was. -/
inductive Positioned (partitionId : ℕ) (event : HubEvent) : List Record → List Record → Prop
  | absent : Positioned partitionId event [] []
  | here {record : Record} (records : List Record) (hid : record.partitionId = partitionId) :
      Positioned partitionId event (record :: records)
        ({ record with offset := event.offset, sequenceNumber := event.sequenceNumber } :: records)
  | later {record : Record} {records records' : List Record}
      (hid : record.partitionId ≠ partitionId) (h : Positioned partitionId event records records') :
      Positioned partitionId event (record :: records) (record :: records')

theorem positioned_apply (context : PartitionContext) (event : HubEvent) (records : List Record) :
    Positioned context.partitionId event records
      ((Change.checkpoint (context.checkpoint event)).apply records) := by
  induction records with
  | nil => exact .absent
  | cons record records ih =>
    change Positioned _ _ _ (modifyRecord context.partitionId _ (record :: records))
    rw [modifyRecord]
    split_ifs with hid
    · exact .here records hid
    · exact .later hid ih

/-- What a callback runs against. -/
structure Delivery where
  handler : HandlerState
  /-- The bodies of the events that are still to be selected. -/
  bodies : List Body
  document : Option (List Record)

namespace Delivery

open EventHubConsumerHandler

/-- The next event goes through `_select_elements`; requests to the store succeed. -/
def serve (handler : EventHubConsumerHandler) (services : HandlerServices) :
    Serves Request Answer Delivery
  | .selectElements _ _, w =>
    match w.bodies with
    | body :: bodies =>
      match handler.selectElements services body w.handler with
      | .ok a t => (.ok a, { w with handler := t, bodies := bodies })
      | .error e t => (.error e, { w with handler := t, bodies := bodies })
    | [] => (.ok (), w)
  | .get, w => (.ok w.document, w)
  | .update _ records, w => (.ok (), { w with document := some records })
  | .delete, w => (.ok (), { w with document := none })
  | .stamp, w => (("", 0), w)

variable {handler : EventHubConsumerHandler} {loads : String → Except PyError Json}

theorem serve_selectElements {services : HandlerServices} (partitionId : ℕ) (event : HubEvent)
    {s : HandlerState} {body : Body} (bodies : List Body) (document : Option (List Record))
    {P : Except PyError Unit → HandlerState → Prop}
    (h : Ends (handler.selectElements services body) s P) :
    ∃ r t, P r t ∧ serve handler services (.selectElements partitionId event)
      ⟨s, body :: bodies, document⟩ = (r, ⟨t, bodies, document⟩) := by
  unfold Ends at h
  dsimp only [serve]
  cases hx : handler.selectElements services body s with
  | ok a t => rw [hx] at h; exact ⟨_, _, h, rfl⟩
  | error e t => rw [hx] at h; exact ⟨_, _, h, rfl⟩

theorem ends_exec_selectEach_cons {services : HandlerServices} {partitionId : ℕ} {event : HubEvent}
    {events : List HubEvent} {w : Delivery} {Q : Except PyError Unit → Delivery → Prop} :
    Ends ((selectEach partitionId (event :: events)).exec (serve handler services)) w Q ↔
      match serve handler services (.selectElements partitionId event) w with
      | (.ok _, w') => Ends ((selectEach partitionId events).exec (serve handler services)) w' Q
      | (.error e, w') => Q (.error e) w' := by
  rw [selectEach, Prog.ends_exec_bind, Prog.ends_exec_perform]
  obtain ⟨r, w'⟩ := serve handler services (.selectElements partitionId event) w
  dsimp only
  rw [Prog.ends_exec_bind, Prog.ends_exec_lift]
  cases r <;> exact Iff.rfl

/-- The loop over a batch ends normally when every body is harmless. -/
theorem ends_selectEach (partitionId : ℕ) (batch : List EventData) (s : HandlerState)
    (document : Option (List Record)) :
    Ends ((selectEach partitionId (batch.map EventData.toHubEvent)).exec
        (serve handler (.ofLoads loads))) ⟨s, batch.map EventData.body, document⟩
      fun r w ↦ w.document = document ∧
        (r = .ok () ↔ ∀ event ∈ batch, HarmlessBody loads event.body) := by
  induction batch generalizing s with
  | nil => exact ⟨rfl, iff_of_true rfl fun _ hmem ↦ absurd hmem List.not_mem_nil⟩
  | cons event batch ih =>
    have hstep : Ends (handler.selectElements (.ofLoads loads) event.body) s _ :=
      ends_selectElements_eq_ok_iff event.body
    obtain ⟨r, t, hr, hserve⟩ := serve_selectElements partitionId event.toHubEvent
      (batch.map EventData.body) document hstep
    rw [List.map_cons, List.map_cons, ends_exec_selectEach_cons, hserve, List.forall_mem_cons]
    cases r with
    | error e =>
      refine ⟨rfl, iff_of_false error_ne_ok fun h ↦ ?_⟩
      exact error_ne_ok (hr.mpr h.1)
    | ok _ =>
      refine (ih t).mono fun r w h ↦ ⟨h.1, h.2.trans ?_⟩
      exact (and_iff_right (hr.mp rfl)).symm

theorem ends_updateCheckpoint {services : HandlerServices} {context : PartitionContext}
    {event : HubEvent} (hlast : context.lastReceivedEvent = some event) {records : List Record}
    {w : Delivery} (hdocument : w.document = some records) :
    Ends ((context.updateCheckpoint none).exec (serve handler services)) w fun r w' ↦
      r = .ok () ∧
        w'.document = some ((Change.checkpoint (context.checkpoint event)).apply records) := by
  rw [PartitionContext.updateCheckpoint, Option.none_or, hlast]
  obtain ⟨s, bodies, document⟩ := w
  obtain rfl : document = some records := hdocument
  exact ⟨rfl, rfl⟩

/-- **A batch.** -/
theorem onEventBatch_stores_iff (context : PartitionContext) (batch : List EventData)
    (s : HandlerState) (records : List Record) :
    Ends ((onEventBatch
        (context.received (batch.map EventData.toHubEvent)) (batch.map EventData.toHubEvent)).exec
          (serve handler (.ofLoads loads))) ⟨s, batch.map EventData.body, some records⟩
      (fun r w ↦ r = .ok () ∧ ∃ stored, w.document = some stored ∧ match batch.getLast? with
        | some event => Positioned context.partitionId event.toHubEvent records stored
        | none => stored = records) ↔ ∀ event ∈ batch, HarmlessBody loads event.body := by
  rw [onEventBatch]
  cases batch with
  | nil => exact iff_of_true ⟨rfl, records, rfl, rfl⟩ fun _ hmem ↦ absurd hmem List.not_mem_nil
  | cons first rest =>
    obtain ⟨last, hlast⟩ : ∃ last, (first :: rest).getLast? = some last :=
      ⟨_, List.getLast?_eq_some_getLast (List.cons_ne_nil first rest)⟩
    have hreceived : (context.received ((first :: rest).map EventData.toHubEvent)).lastReceivedEvent
        = some last.toHubEvent := by
      rw [PartitionContext.received, List.getLast?_map, hlast]
      rfl
    rw [List.isEmpty_map, List.isEmpty_cons, if_neg Bool.false_ne_true, Prog.ends_exec_bind, hlast]
    have hloop : Ends
        ((selectEach context.partitionId ((first :: rest).map EventData.toHubEvent)).exec
          (serve handler (.ofLoads loads)))
        ⟨s, (first :: rest).map EventData.body, some records⟩ _ :=
      ends_selectEach context.partitionId (first :: rest) s (some records)
    constructor
    · intro h
      obtain ⟨r, w, hw, hdocument, hr⟩ := (h.and hloop).exists
      cases r with
      | ok _ => exact hr.mp rfl
      | error e => exact absurd hw.1 error_ne_ok
    · intro hall
      refine hloop.mono fun r w h ↦ ?_
      rw [h.2.mpr hall]
      refine (ends_updateCheckpoint hreceived h.1).mono fun r' w' h' ↦ ⟨h'.1, _, h'.2, ?_⟩
      exact positioned_apply context last.toHubEvent records

/-! A body with a record that is `null`. -/

def nullRecord : String := "\x7b\"records\":[null]\x7d"

/-- The parser at the text it is asked for. -/
def nullLoads (text : String) : Except PyError Json :=
  if text = nullRecord then .ok (.obj [("records", .arr [.null])])
  else .error (.valueError "Expecting value: line 1 column 1 (char 0)")

def nullEvent : EventData := ⟨⟨"100", 7⟩, .bytes nullRecord.toUTF8⟩

theorem not_harmlessBody_nullEvent : ¬HarmlessBody nullLoads nullEvent.body := by
  intro h
  have hof : elementsOf nullLoads nullEvent.body = [.null] := by
    rw [elementsOf, nullEvent, decodedEvents_toUTF8]
    rfl
  have helements := h.elements
  rw [hof] at helements
  obtain ⟨fields, hfields, -⟩ := helements .null List.mem_cons_self
  cases hfields

/-- The callback raises, and the batch is not checkpointed. -/
theorem not_onEventBatch_stores :
    ¬Ends ((onEventBatch ⟨⟨"namespace", "hub", "$Default"⟩, 0, some nullEvent.toHubEvent⟩
        [nullEvent.toHubEvent]).exec (serve sampleHandler (.ofLoads nullLoads)))
      ⟨⟨[], 0, 0⟩, [nullEvent.body], some [⟨0, "owner", "e0", 0, "", 0⟩]⟩
      fun r w ↦ r = .ok () ∧ w.document = some [⟨0, "owner", "e0", 0, "100", 7⟩] := by
  intro h
  rw [onEventBatch, List.isEmpty_cons, if_neg Bool.false_ne_true, Prog.ends_exec_bind] at h
  have hloop : Ends ((selectEach 0 [nullEvent.toHubEvent]).exec
      (serve sampleHandler (.ofLoads nullLoads)))
        ⟨⟨[], 0, 0⟩, [nullEvent.body], some [⟨0, "owner", "e0", 0, "", 0⟩]⟩ _ :=
    ends_selectEach 0 [nullEvent] ⟨[], 0, 0⟩ (some [⟨0, "owner", "e0", 0, "", 0⟩])
  obtain ⟨r, w, hw, -, hr⟩ := (h.and hloop).exists
  cases r with
  | ok _ => exact not_harmlessBody_nullEvent (hr.mp rfl nullEvent List.mem_cons_self)
  | error e => exact error_ne_ok hw.1

end Delivery

end MsSecurity
