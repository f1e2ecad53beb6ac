import MsSecurity.EventHub.Batch
import MsSecurity.Transition.Relational
import Mathlib.Algebra.Order.Ring.Nat
import Mathlib.Data.List.AList
import Mathlib.Data.List.DropRight
import Mathlib.Data.List.Induction

/-!
# The logged statistics

`_on_event_batch` keeps statistics. For each partition there are the events received, and a counter
of the empty callbacks, which starts at `-1` and is set to zero by a batch that was processed; for
all partitions together, the records skipped and ingested. A summary is logged, and everything is
reset, when all counters are positive after an empty callback.

The callbacks come in any order, and what a callback changed before it raised is kept. The handler
forgets the callbacks; `Watch` keeps their history next to the state, and `Invariant` says how the
counters follow from the part of it since the last summary.

## Main results

* `EventStats.agree_selectElements`, `EventStats.agree_selectEach`: counting the calls of
  `_write_event` changes nothing.
* `EventStats.conserves_run`: what the summaries add up to, and when one is logged.
-/

namespace MsSecurity

namespace EventStats

/-! ## The calls of `_write_event` -/

/-- The handler, and a count that it does not keep. -/
structure Counted where
  handler : HandlerState
  /-- The calls of `_write_event` that returned. -/
  returned : ℕ

abbrev Counting := EStateM PyError Counted

def onHandler {α : Type} (x : Handling α) : Counting α :=
  zoom Counted.handler (fun handler k ↦ { k with handler := handler }) id x

variable (handler : EventHubConsumerHandler)

/-- `_write_event`. -/
def writeEvent (services : HandlerServices) (data : Json) : Counting Unit := do
  onHandler (handler.writeEvent services data)
  modify fun k ↦ { k with returned := k.returned + 1 }

/-- The loop of `_select_elements`. -/
def writeElements (services : HandlerServices) : List Json → Counting Unit
  | [] => pure ()
  | data :: elements => do
    writeEvent handler services (← liftExcept
      (EventHubConsumerHandler.loadElement services.loads data))
    writeElements services elements

/-- `except ValueError: ...`. -/
def exceptValueError (x : Counting Unit) : Counting Unit :=
  tryCatch x fun e ↦ match e with
    | .valueError _ => pure ()
    | e => throw e

/-- `_select_elements`. -/
def selectElements (services : HandlerServices) (body : Body) : Counting Unit := do
  let decodedEvents ← liftExcept (EventHubConsumerHandler.decodedEvents body)
  exceptValueError do
    let eventBody ← liftExcept (services.loads decodedEvents)
    writeElements handler services (EventHubConsumerHandler.recordsOf eventBody)

/-- An event, and what is answered while it is processed. -/
structure Delivered where
  body : Body
  services : HandlerServices

/-- The loop of `_on_event_batch`. -/
def selectEach : List Delivered → Counting Unit
  | [] => pure ()
  | event :: events => do
    selectElements handler event.services event.body
    selectEach events

/-! ## The callback -/

structure PartitionDetail where
  isDone : ℤ
  totalReceivedBatchCount : ℕ

/-- The details of a partition that was not seen. -/
def PartitionDetail.initial : PartitionDetail := ⟨-1, 0⟩

abbrev PartitionDetails := AList fun _ : ℕ ↦ PartitionDetail

namespace PartitionDetails

variable (details : PartitionDetails)

def get (partitionId : ℕ) : PartitionDetail := (details.lookup partitionId).getD .initial

/-- The events received, as they are summed up for the log. -/
def total : ℕ := (details.entries.map fun entry ↦ entry.2.totalReceivedBatchCount).sum

/-- `all(partition["is_done"] > 0 for partition in ...)`. -/
def shouldClose : Bool := details.entries.all fun entry ↦ 0 < entry.2.isDone

end PartitionDetails

/-- The numbers of a logged line. -/
structure Summary where
  totalReceivedBatchCount : ℕ
  skippedEventsCount : ℕ
  ingestedEventsCount : ℕ

/-- What the callbacks change. -/
structure State where
  counted : Counted
  partitionDetails : PartitionDetails
  /-- The summaries logged, oldest first. -/
  summaries : List Summary

/-- Before the first callback. -/
def State.initial (index : List Event) : State := ⟨⟨⟨index, 0, 0⟩, 0⟩, ∅, []⟩

abbrev Watching := EStateM PyError State

def onCounted {α : Type} (x : Counting α) : Watching α :=
  zoom State.counted (fun counted s ↦ { s with counted := counted }) id x

/-- A call of `_on_event_batch`. -/
structure Callback where
  partitionId : ℕ
  eventBatch : List Delivered
  /-- What `update_checkpoint` raises. -/
  updateCheckpoint : Option PyError

/-- The details of a partition are changed. -/
def setPartitionDetail (partitionId : ℕ) (detail : PartitionDetail) : Watching Unit :=
  modify fun s ↦ { s with partitionDetails := s.partitionDetails.insert partitionId detail }

/-- `_get_partition_details`. -/
def getPartitionDetails (partitionId : ℕ) : Watching PartitionDetail := do
  match (← get).partitionDetails.lookup partitionId with
  | some detail => return detail
  | none =>
    setPartitionDetail partitionId .initial
    return .initial

/-- The state when a summary has been logged. -/
def State.summarized (s : State) : State where
  counted := { s.counted with
    handler := { s.counted.handler with skippedEventsCount := 0, ingestedEventsCount := 0 } }
  partitionDetails := ∅
  summaries := s.summaries ++ [{
    totalReceivedBatchCount := s.partitionDetails.total
    skippedEventsCount := s.counted.handler.skippedEventsCount
    ingestedEventsCount := s.counted.handler.ingestedEventsCount }]

/-- `_log_event_stats`. -/
def logEventStats : Watching Unit := modify State.summarized

/-- `_on_event_batch`. -/
def onEventBatch (callback : Callback) : Watching Unit := do
  let detail ← getPartitionDetails callback.partitionId
  if callback.eventBatch.isEmpty then
    setPartitionDetail callback.partitionId { detail with isDone := detail.isDone + 1 }
    if (← get).partitionDetails.shouldClose then logEventStats
  else
    onCounted (selectEach handler callback.eventBatch)
    setPartitionDetail callback.partitionId
      ⟨0, detail.totalReceivedBatchCount + callback.eventBatch.length⟩
    attempt callback.updateCheckpoint

/-! ## Histories -/

/-- A callback, when it is over. -/
structure Observed where
  partitionId : ℕ
  size : ℕ
  /-- It had a batch, and processed all of its events. -/
  processed : Bool
  /-- A summary was logged. -/
  logged : Bool

abbrev History := List Observed

def Observed.isEmpty (o : Observed) : Bool := o.size = 0

namespace History

/-- The callbacks since the last summary. -/
def sinceSummary (history : History) : History := history.rtakeWhile fun o ↦ !o.logged

/-- The callbacks of a partition. -/
def ofPartition (partitionId : ℕ) (history : History) : History :=
  history.filter fun o ↦ o.partitionId = partitionId

/-- The callbacks since the last batch that was processed, if there is one. -/
def sinceProcessed (history : History) : History := history.rtakeWhile fun o ↦ !o.processed

def emptyCount (history : History) : ℕ := history.countP Observed.isEmpty

/-- An empty callback after the last batch that was processed, or two without such a batch. -/
def Idle (history : History) : Prop :=
  (if history.any Observed.processed then 1 else 2) ≤ history.sinceProcessed.emptyCount

/-- The callback `o` is empty, and with it every partition since the last summary is idle. -/
def Due (before : History) (o : Observed) : Prop :=
  o.isEmpty ∧ ∀ partitionId ∈ (before.sinceSummary ++ [o]).map Observed.partitionId,
    Idle (ofPartition partitionId (before.sinceSummary ++ [o]))

end History

/-- The callbacks so far, and the state they led to. -/
structure Watch where
  history : History
  state : State

/-- A callback as it is observed, in the state it is made in. -/
def observe (s : State) (callback : Callback) : Observed where
  partitionId := callback.partitionId
  size := callback.eventBatch.length
  processed := !callback.eventBatch.isEmpty &&
    (outcome (selectEach handler callback.eventBatch) s.counted).isOk
  logged := s.summaries.length < (finalState (onEventBatch handler callback) s).summaries.length

/-- An exception ends a callback, and not the handler. -/
def step (w : Watch) (callback : Callback) : Watch where
  history := w.history ++ [observe handler w.state callback]
  state := finalState (onEventBatch handler callback) w.state

/-- Callbacks one after the other. -/
def run (index : List Event) (callbacks : List Callback) : Watch :=
  callbacks.foldl (step handler) ⟨[], .initial index⟩

/-! ## The count changes nothing -/

section Agree

variable {handler} {services : HandlerServices}

def SameHandler (k : Counted) (s : HandlerState) : Prop := k.handler = s

theorem agree_onHandler {α : Type} (x : Handling α) :
    Agree SameHandler SameHandler (onHandler x) x :=
  agree_zoom (fun _ _ h ↦ h) (fun _ _ _ _ ↦ rfl) x

theorem agree_writeEvent (data : Json) : Agree SameHandler SameHandler
    (writeEvent handler services data) (handler.writeEvent services data) := by
  rw [← bind_pure (handler.writeEvent services data)]
  refine (agree_onHandler _).bind (fun _ _ ↦ id) fun _ k s h ↦ ?_
  exact ⟨rfl, h⟩

theorem agree_writeElements (elements : List Json) : Agree SameHandler SameHandler
    (writeElements handler services elements) (handler.writeElements services elements) := by
  induction elements with
  | nil => exact agree_pure (fun _ _ ↦ id) ()
  | cons data elements ih =>
    exact (agree_liftExcept (fun _ _ ↦ id) _).bind (fun _ _ ↦ id) fun data ↦
      (agree_writeEvent data).bind (fun _ _ ↦ id) fun _ ↦ ih

theorem agree_selectElements (body : Body) : Agree SameHandler SameHandler
    (selectElements handler services body) (handler.selectElements services body) := by
  refine (agree_liftExcept (fun _ _ ↦ id) _).bind (fun _ _ ↦ id) fun decodedEvents ↦ ?_
  refine Agree.tryCatch ?_ (fun _ _ ↦ id) fun e ↦ ?_
  · exact (agree_liftExcept (fun _ _ ↦ id) _).bind (fun _ _ ↦ id) fun eventBody ↦
      agree_writeElements _
  · cases e with
    | valueError msg => exact agree_pure (fun _ _ ↦ id) ()
    | _ => exact agree_throw (fun _ _ ↦ id) _

theorem agree_selectEach (partitionId : ℕ) (batch : List EventData) :
    Agree (fun (k : Counted) (w : Delivery) ↦
        k.handler = w.handler ∧ w.bodies = batch.map EventData.body)
      (fun k w ↦ k.handler = w.handler)
      (selectEach handler (batch.map fun event ↦ ⟨event.body, services⟩))
      ((EventHubConsumerHandler.selectEach partitionId (batch.map EventData.toHubEvent)).exec
        (Delivery.serve handler services)) := by
  induction batch with
  | nil => exact fun k w h ↦ ⟨rfl, h.1⟩
  | cons event batch ih =>
    rintro k ⟨s, _, document⟩ ⟨hsame, rfl⟩
    rw [List.map_cons, selectEach, ends_bind]
    refine (agree_selectElements event.body k s hsame).mono fun r k' hr ↦ ?_
    obtain ⟨r', s', ⟨rfl, hsame'⟩, hserve⟩ := Delivery.serve_selectElements partitionId
      event.toHubEvent (batch.map EventData.body) document hr
    simp only [List.map_cons, Delivery.ends_exec_selectEach_cons, hserve]
    cases r with
    | ok _ => exact ih k' _ ⟨hsame', rfl⟩
    | error e => exact ⟨rfl, hsame'⟩

end Agree

/-! ## What the handler counts -/

section Excess

variable {handler} {services : HandlerServices}

/-- The records that the handler has counted, less the calls that returned. -/
def Counted.excess (k : Counted) : ℤ :=
  k.handler.skippedEventsCount + k.handler.ingestedEventsCount - k.returned

theorem ends_writeEvent (data : Json) (s : HandlerState) :
    Ends (handler.writeEvent services data) s fun r t ↦
      t.skippedEventsCount + t.ingestedEventsCount = match r with
        | .ok _ => s.skippedEventsCount + s.ingestedEventsCount + 1
        | .error _ => s.skippedEventsCount + s.ingestedEventsCount := by
  rw [EventHubConsumerHandler.writeEvent, ends_bind, ends_liftExcept]
  cases asObject data with
  | error e => rfl
  | ok data =>
    dsimp only
    rw [ends_bind, ends_liftExcept]
    cases EventHubConsumerHandler.eventType data with
    | error e => rfl
    | ok eventType =>
      dsimp only
      split
      · exact Nat.add_right_comm _ _ _
      · rw [ends_bind, ends_get]
        dsimp only
        rw [ends_bind, ends_attempt]
        cases services.writeEvent s.index (handler.event data) with
        | some e => rfl
        | none => rfl

theorem preserves_excess_writeEvent (data : Json) :
    Preserves Counted.excess (writeEvent handler services data) := by
  intro k
  rw [writeEvent, ends_bind, onHandler, ends_zoom]
  refine (ends_writeEvent data k.handler).mono fun r s hs ↦ ?_
  cases r with
  | error e =>
    dsimp only at hs
    simp only [Except.mapError, Counted.excess]
    omega
  | ok _ =>
    dsimp only at hs
    simp only [Except.mapError, ends_modify, Counted.excess]
    omega

theorem preserves_excess_writeElements (elements : List Json) :
    Preserves Counted.excess (writeElements handler services elements) := by
  induction elements with
  | nil => exact preserves_pure ()
  | cons data elements ih =>
    exact (preserves_liftExcept _).bind fun _ ↦ (preserves_excess_writeEvent _).bind fun _ ↦ ih

theorem preserves_excess_selectElements (body : Body) :
    Preserves Counted.excess (selectElements handler services body) := by
  refine (preserves_liftExcept _).bind fun _ ↦ Preserves.tryCatch ?_ fun e ↦ ?_
  · exact (preserves_liftExcept _).bind fun _ ↦ preserves_excess_writeElements _
  · cases e with
    | valueError msg => exact preserves_pure ()
    | _ => exact preserves_throw _

theorem preserves_excess_selectEach (events : List Delivered) :
    Preserves Counted.excess (selectEach handler events) := by
  induction events with
  | nil => exact preserves_pure ()
  | cons event events ih => exact (preserves_excess_selectElements _).bind fun _ ↦ ih

end Excess

/-! ## The details of the partitions -/

namespace PartitionDetails

variable {details : PartitionDetails} {partitionId other : ℕ} {detail : PartitionDetail}

@[simp] theorem get_insert :
    PartitionDetails.get (details.insert partitionId detail) partitionId = detail := by
  rw [get, AList.lookup_insert, Option.getD_some]

theorem get_insert_ne (h : other ≠ partitionId) :
    PartitionDetails.get (details.insert partitionId detail) other = details.get other := by
  rw [get, AList.lookup_insert_ne h, get]

theorem get_of_not_mem (h : partitionId ∉ details) : details.get partitionId = .initial := by
  rw [get, AList.lookup_eq_none.mpr h, Option.getD_none]

theorem mem_entries_iff : (⟨partitionId, detail⟩ : Σ _ : ℕ, PartitionDetail) ∈ details.entries ↔
    partitionId ∈ details ∧ details.get partitionId = detail := by
  rw [← AList.mem_lookup_iff, Option.mem_def, ← AList.lookup_isSome, get]
  cases details.lookup partitionId <;> simp

theorem shouldClose_iff : details.shouldClose = true ↔
    ∀ partitionId ∈ details, 0 < (details.get partitionId).isDone := by
  simp only [shouldClose, List.all_eq_true, decide_eq_true_eq]
  constructor
  · exact fun h p hp ↦ h ⟨p, details.get p⟩ (mem_entries_iff.mpr ⟨hp, rfl⟩)
  · rintro h ⟨p, detail⟩ hentry
    obtain ⟨hp, rfl⟩ := mem_entries_iff.mp hentry
    exact h p hp

/-- Changing the details of a partition changes the total by what it changes theirs. -/
theorem total_insert : PartitionDetails.total (details.insert partitionId detail) +
    (details.get partitionId).totalReceivedBatchCount =
      details.total + detail.totalReceivedBatchCount := by
  by_cases hmem : partitionId ∈ details
  · obtain ⟨old, before, after, -, hentries, herase⟩ := List.exists_of_kerase hmem
    have hold : details.get partitionId = old :=
      (mem_entries_iff.mp (hentries ▸ List.mem_append_right _ List.mem_cons_self)).2
    rw [total, AList.entries_insert, herase, hold, total, hentries]
    simp only [List.map_cons, List.map_append, List.sum_cons, List.sum_append]
    omega
  · rw [total, AList.entries_insert_of_notMem hmem, List.map_cons, List.sum_cons,
      get_of_not_mem hmem]
    exact Nat.add_comm detail.totalReceivedBatchCount details.total

/-- The details once those of a partition have been asked for. -/
def touch (details : PartitionDetails) (partitionId : ℕ) : PartitionDetails :=
  if partitionId ∈ details then details else details.insert partitionId .initial

theorem mem_touch : other ∈ details.touch partitionId ↔ other = partitionId ∨ other ∈ details := by
  rw [touch]
  split_ifs with hmem
  · exact ⟨.inr, fun h ↦ h.elim (fun h ↦ h ▸ hmem) id⟩
  · exact AList.mem_insert details

@[simp] theorem get_touch : (details.touch partitionId).get other = details.get other := by
  rw [touch]
  split_ifs with hmem
  · rfl
  · by_cases hother : other = partitionId
    · rw [hother, get_insert, get_of_not_mem hmem]
    · exact get_insert_ne hother

@[simp] theorem total_touch : (details.touch partitionId).total = details.total := by
  rw [touch]
  split_ifs with hmem
  · rfl
  · have h : total (details.insert partitionId .initial) + _ = _ := total_insert
    rw [get_of_not_mem hmem] at h
    exact Nat.add_right_cancel h

end PartitionDetails

/-! ## What a callback does -/

section Step

variable {handler} {s : State} {callback : Callback}

theorem ends_getPartitionDetails {partitionId : ℕ}
    {Q : Except PyError PartitionDetail → State → Prop} :
    Ends (getPartitionDetails partitionId) s Q ↔
      Q (.ok (s.partitionDetails.get partitionId))
        { s with partitionDetails := s.partitionDetails.touch partitionId } := by
  rw [getPartitionDetails, ends_bind, ends_get]
  dsimp only
  cases hlookup : s.partitionDetails.lookup partitionId with
  | some detail =>
    have hmem : partitionId ∈ s.partitionDetails :=
      AList.lookup_isSome.mp (hlookup ▸ rfl)
    rw [PartitionDetails.touch, if_pos hmem, PartitionDetails.get, hlookup]
    exact Iff.rfl
  | none =>
    have hmem : partitionId ∉ s.partitionDetails := AList.lookup_eq_none.mp hlookup
    rw [PartitionDetails.touch, if_neg hmem, PartitionDetails.get, hlookup]
    exact Iff.rfl

/-- The state with these details of the partition that is called back. -/
def State.detailed (s : State) (callback : Callback) (detail : PartitionDetail) : State :=
  { s with partitionDetails :=
      (s.partitionDetails.touch callback.partitionId).insert callback.partitionId detail }

/-- One more empty callback is counted. -/
def State.afterEmpty (s : State) (callback : Callback) : State :=
  s.detailed callback { s.partitionDetails.get callback.partitionId with
    isDone := (s.partitionDetails.get callback.partitionId).isDone + 1 }

/-- The events of a batch are counted. -/
def State.afterBatch (s : State) (callback : Callback) : State :=
  s.detailed callback ⟨0, (s.partitionDetails.get
    callback.partitionId).totalReceivedBatchCount + callback.eventBatch.length⟩

/-- How a callback may end. -/
inductive StepEnds (s : State) (callback : Callback) : Observed → State → Prop
  | empty (hempty : callback.eventBatch = [])
      (hclose : (s.afterEmpty callback).partitionDetails.shouldClose = false) :
      StepEnds s callback ⟨callback.partitionId, 0, false, false⟩ (s.afterEmpty callback)
  | summarized (hempty : callback.eventBatch = [])
      (hclose : (s.afterEmpty callback).partitionDetails.shouldClose = true) :
      StepEnds s callback ⟨callback.partitionId, 0, false, true⟩
        (s.afterEmpty callback).summarized
  | processed (hbatch : callback.eventBatch ≠ []) {k : Counted}
      (hcounted : k.excess = s.counted.excess) :
      StepEnds s callback ⟨callback.partitionId, callback.eventBatch.length, true, false⟩
        { s.afterBatch callback with counted := k }
  | raised (hbatch : callback.eventBatch ≠ []) {k : Counted}
      (hcounted : k.excess = s.counted.excess) :
      StepEnds s callback ⟨callback.partitionId, callback.eventBatch.length, false, false⟩
        { s with
          counted := k
          partitionDetails := s.partitionDetails.touch callback.partitionId }

theorem finalState_of_empty (hempty : callback.eventBatch = []) :
    finalState (onEventBatch handler callback) s =
      if (s.afterEmpty callback).partitionDetails.shouldClose
      then (s.afterEmpty callback).summarized else s.afterEmpty callback := by
  refine finalState_eq ?_
  rw [onEventBatch, ends_bind, ends_getPartitionDetails]
  dsimp only
  rw [if_pos (List.isEmpty_iff.mpr hempty), ends_bind, setPartitionDetail, ends_modify]
  dsimp only
  rw [ends_bind, ends_get]
  change Ends (if (s.afterEmpty callback).partitionDetails.shouldClose then logEventStats
    else pure ()) (s.afterEmpty callback) _
  cases (s.afterEmpty callback).partitionDetails.shouldClose with
  | true => rfl
  | false => rfl

theorem finalState_of_processed (hbatch : callback.eventBatch ≠ []) {k : Counted}
    (hloop : selectEach handler callback.eventBatch s.counted = .ok () k) :
    finalState (onEventBatch handler callback) s = { s.afterBatch callback with counted := k } := by
  refine finalState_eq ?_
  rw [onEventBatch, ends_bind, ends_getPartitionDetails]
  dsimp only
  rw [if_neg (by simpa using hbatch), ends_bind, onCounted, ends_zoom, Ends, hloop]
  dsimp only [Except.mapError]
  rw [ends_bind, setPartitionDetail, ends_modify]
  dsimp only
  -- the batch is counted before the checkpoint is updated
  rw [ends_attempt]
  cases callback.updateCheckpoint with
  | none => rfl
  | some e => rfl

theorem finalState_of_raised (hbatch : callback.eventBatch ≠ []) {e : PyError} {k : Counted}
    (hloop : selectEach handler callback.eventBatch s.counted = .error e k) :
    finalState (onEventBatch handler callback) s =
      { s with
        counted := k
        partitionDetails := s.partitionDetails.touch callback.partitionId } := by
  refine finalState_eq ?_
  rw [onEventBatch, ends_bind, ends_getPartitionDetails]
  dsimp only
  rw [if_neg (by simpa using hbatch), ends_bind, onCounted, ends_zoom, Ends, hloop]
  rfl

/-- **A callback.** -/
theorem stepEnds (s : State) (callback : Callback) : StepEnds s callback
    (observe handler s callback) (finalState (onEventBatch handler callback) s) := by
  by_cases hempty : callback.eventBatch = []
  · have hfinal : finalState (onEventBatch handler callback) s = _ := finalState_of_empty hempty
    cases hclose : (s.afterEmpty callback).partitionDetails.shouldClose with
    | true =>
      rw [hclose, if_pos rfl] at hfinal
      have hobserve : observe handler s callback = ⟨callback.partitionId, 0, false, true⟩ := by
        simp [observe, hfinal, hempty, State.summarized, State.afterEmpty, State.detailed]
      rw [hobserve, hfinal]
      exact .summarized hempty hclose
    | false =>
      rw [hclose, if_neg Bool.false_ne_true] at hfinal
      have hobserve : observe handler s callback = ⟨callback.partitionId, 0, false, false⟩ := by
        simp [observe, hfinal, hempty, State.afterEmpty, State.detailed]
      rw [hobserve, hfinal]
      exact .empty hempty hclose
  · cases hloop : selectEach handler callback.eventBatch s.counted with
    | ok _ k =>
      have hfinal := finalState_of_processed hempty hloop
      have hobserve : observe handler s callback =
          ⟨callback.partitionId, callback.eventBatch.length, true, false⟩ := by
        simp [observe, hfinal, hempty, outcome, hloop, State.afterBatch, State.detailed,
          Except.isOk, Except.toBool]
      rw [hobserve, hfinal]
      exact .processed hempty ((preserves_excess_selectEach _).of_ok hloop)
    | error e k =>
      have hfinal := finalState_of_raised hempty hloop
      have hobserve : observe handler s callback =
          ⟨callback.partitionId, callback.eventBatch.length, false, false⟩ := by
        simp [observe, hfinal, outcome, hloop, Except.isOk, Except.toBool]
      rw [hobserve, hfinal]
      exact .raised hempty (Ends.of_error (preserves_excess_selectEach _ _) hloop)

end Step

/-! ## The counters -/

namespace History

variable {history : History} {o : Observed}

/-- What `is_done` counts. -/
def isDone (history : History) : ℤ :=
  history.sinceProcessed.emptyCount - if history.any Observed.processed then 0 else 1

theorem idle_iff : Idle history ↔ 0 < history.isDone := by
  rw [Idle, isDone]
  split
  · omega
  · omega

theorem isDone_concat : isDone (history ++ [o]) =
    if o.processed then 0 else history.isDone + if o.isEmpty then 1 else 0 := by
  rw [isDone, sinceProcessed, List.rtakeWhile_concat, List.any_append]
  cases hprocessed : o.processed with
  | true => simp [emptyCount, hprocessed]
  | false =>
    simp only [emptyCount, List.countP_append, List.countP_singleton, hprocessed, isDone,
      sinceProcessed, Bool.not_false, if_true, List.any_cons, List.any_nil, Bool.or_false,
      Bool.false_eq_true, if_false]
    cases o.isEmpty with
    | true =>
      rw [if_pos rfl, if_pos rfl]
      omega
    | false =>
      rw [if_neg Bool.false_ne_true, if_neg Bool.false_ne_true]
      omega

theorem ofPartition_concat_self :
    ofPartition o.partitionId (history ++ [o]) = ofPartition o.partitionId history ++ [o] := by
  simp [ofPartition]

theorem ofPartition_concat_ne {partitionId : ℕ} (h : o.partitionId ≠ partitionId) :
    ofPartition partitionId (history ++ [o]) = ofPartition partitionId history := by
  simp [ofPartition, h]

end History

/-- The details are those of the partitions in the history. -/
structure Tracks (history : History) (details : PartitionDetails) : Prop where
  mem_iff : ∀ partitionId, partitionId ∈ details ↔
    partitionId ∈ history.map Observed.partitionId
  isDone_eq : ∀ partitionId, (details.get partitionId).isDone =
    (history.ofPartition partitionId).isDone

namespace Tracks

variable {history : History} {details details' : PartitionDetails} {o : Observed}

theorem nil : Tracks [] ∅ where
  mem_iff _ := iff_of_false (AList.notMem_empty _) List.not_mem_nil
  isDone_eq _ := rfl

theorem concat (h : Tracks history details)
    (hmem : ∀ p, p ∈ details' ↔ p = o.partitionId ∨ p ∈ details)
    (hsame : ∀ p ≠ o.partitionId, details'.get p = details.get p)
    (hself : (details'.get o.partitionId).isDone = if o.processed then 0
      else (details.get o.partitionId).isDone + if o.isEmpty then 1 else 0) :
    Tracks (history ++ [o]) details' where
  mem_iff p := by
    rw [hmem, h.mem_iff, List.map_append, List.mem_append, List.map_singleton,
      List.mem_singleton, or_comm]
  isDone_eq p := by
    by_cases hp : p = o.partitionId
    · rw [hp, hself, History.ofPartition_concat_self, History.isDone_concat, h.isDone_eq]
    · rw [hsame p hp, History.ofPartition_concat_ne (Ne.symm hp), h.isDone_eq]

theorem shouldClose_iff (h : Tracks history details) : details.shouldClose = true ↔
    ∀ p ∈ history.map Observed.partitionId, (history.ofPartition p).Idle := by
  rw [PartitionDetails.shouldClose_iff]
  refine forall_congr' fun p ↦ ?_
  rw [h.mem_iff, h.isDone_eq, History.idle_iff]

end Tracks

/-! ## What a callback changes -/

section Detailed

variable {s : State} {callback : Callback} {detail : PartitionDetail}

theorem mem_detailed {p : ℕ} : p ∈ (s.detailed callback detail).partitionDetails ↔
    p = callback.partitionId ∨ p ∈ s.partitionDetails := by
  rw [State.detailed, AList.mem_insert, PartitionDetails.mem_touch, or_self_left]

theorem get_detailed_self :
    (s.detailed callback detail).partitionDetails.get callback.partitionId = detail :=
  PartitionDetails.get_insert

theorem get_detailed_ne {p : ℕ} (h : p ≠ callback.partitionId) :
    (s.detailed callback detail).partitionDetails.get p = s.partitionDetails.get p :=
  (PartitionDetails.get_insert_ne h).trans PartitionDetails.get_touch

theorem total_detailed : (s.detailed callback detail).partitionDetails.total +
    (s.partitionDetails.get callback.partitionId).totalReceivedBatchCount =
      s.partitionDetails.total + detail.totalReceivedBatchCount := by
  have h : (s.detailed callback detail).partitionDetails.total + _ = _ :=
    PartitionDetails.total_insert
  rwa [PartitionDetails.get_touch, PartitionDetails.total_touch] at h

theorem Tracks.detailed {history : History} {o : Observed}
    (h : Tracks history s.partitionDetails) (ho : o.partitionId = callback.partitionId)
    (hdetail : detail.isDone = if o.processed then 0
      else (s.partitionDetails.get callback.partitionId).isDone + if o.isEmpty then 1 else 0) :
    Tracks (history ++ [o]) (s.detailed callback detail).partitionDetails := by
  refine h.concat (fun p ↦ ?_) (fun p hp ↦ ?_) ?_
  · rw [ho]
    exact mem_detailed
  · exact get_detailed_ne (ho ▸ hp)
  · rw [ho, get_detailed_self, hdetail]

theorem Tracks.afterEmpty {history : History} (h : Tracks history s.partitionDetails)
    (callback : Callback) (logged : Bool) :
    Tracks (history ++ [⟨callback.partitionId, 0, false, logged⟩])
      (s.afterEmpty callback).partitionDetails := h.detailed rfl rfl

theorem Tracks.afterBatch {history : History} (h : Tracks history s.partitionDetails)
    (callback : Callback) :
    Tracks (history ++ [⟨callback.partitionId, callback.eventBatch.length, true, false⟩])
      (s.afterBatch callback).partitionDetails := h.detailed rfl rfl

theorem total_afterEmpty :
    (s.afterEmpty callback).partitionDetails.total = s.partitionDetails.total :=
  Nat.add_right_cancel total_detailed

theorem total_afterBatch : (s.afterBatch callback).partitionDetails.total =
    s.partitionDetails.total + callback.eventBatch.length := by
  refine Nat.add_right_cancel (total_detailed.trans ?_)
  dsimp only
  omega

theorem isEmpty_of_batch (hbatch : callback.eventBatch ≠ []) (processed logged : Bool) :
    (Observed.mk callback.partitionId callback.eventBatch.length processed logged).isEmpty =
      false := by
  simpa [Observed.isEmpty] using hbatch

theorem Tracks.touch {history : History} (h : Tracks history s.partitionDetails)
    (hbatch : callback.eventBatch ≠ []) :
    Tracks (history ++ [⟨callback.partitionId, callback.eventBatch.length, false, false⟩])
      (s.partitionDetails.touch callback.partitionId) := by
  refine h.concat (fun _ ↦ PartitionDetails.mem_touch) (fun _ _ ↦ PartitionDetails.get_touch) ?_
  rw [PartitionDetails.get_touch, isEmpty_of_batch hbatch]
  exact (Int.add_zero _).symm

end Detailed

/-! ## Conservation -/

/-- The events of the batches that were processed. -/
def History.receivedCount (history : History) : ℕ :=
  ((history.filter Observed.processed).map Observed.size).sum

/-- What the summaries and the counters say of the callbacks. -/
structure Conserves (w : Watch) : Prop where
  /-- The received events are those of the batches that were processed. -/
  received : (w.state.summaries.map Summary.totalReceivedBatchCount).sum +
    w.state.partitionDetails.total = w.history.receivedCount
  /-- The skipped and the ingested ones are the calls of `_write_event` that returned. -/
  written : (w.state.summaries.map fun m ↦ m.skippedEventsCount + m.ingestedEventsCount).sum +
    w.state.counted.handler.skippedEventsCount + w.state.counted.handler.ingestedEventsCount =
      w.state.counted.returned
  /-- A summary is logged when every partition is idle. -/
  logged : ∀ before o, before ++ [o] <+: w.history →
    (o.logged = true ↔ History.Due before o)
  /-- No callback logs two. -/
  count : w.state.summaries.length = w.history.countP Observed.logged

theorem History.receivedCount_concat (history : History) (o : Observed) :
    History.receivedCount (history ++ [o]) =
      history.receivedCount + if o.processed then o.size else 0 := by
  rw [receivedCount, List.filter_append, List.map_append, List.sum_append, receivedCount]
  cases h : o.processed <;> simp [h]

theorem History.sinceSummary_concat (history : History) (o : Observed) :
    History.sinceSummary (history ++ [o]) =
      if o.logged then [] else history.sinceSummary ++ [o] := by
  rw [sinceSummary, List.rtakeWhile_concat, sinceSummary]
  cases h : o.logged <;> simp

/-- What holds of every callback so far holds after one more, if it holds of that one. -/
theorem History.forall_concat {P : History → Observed → Prop} {history : History} {o : Observed}
    (h : ∀ before o, before ++ [o] <+: history → P before o) (ho : P history o) :
    ∀ before o', before ++ [o'] <+: history ++ [o] → P before o' := by
  intro before o' hprefix
  rcases List.prefix_concat_iff.mp hprefix with hsame | hprefix
  · obtain ⟨rfl, ho'⟩ := List.append_inj' hsame rfl
    obtain rfl := List.singleton_inj.mp ho'
    exact ho
  · exact h before o' hprefix

/-- The invariant of the callbacks. -/
structure Invariant (w : Watch) : Prop extends Conserves w where
  tracks : Tracks w.history.sinceSummary w.state.partitionDetails

theorem invariant_initial (index : List Event) : Invariant ⟨[], .initial index⟩ where
  received := rfl
  written := rfl
  logged before o h := absurd (List.prefix_nil.mp h) (by simp)
  count := rfl
  tracks := .nil

section Invariant

variable {history : History} {s : State} {callback : Callback} {o : Observed}

/-- After an empty callback all counters are positive when a summary is due. -/
theorem due_iff {t : State} (hempty : o.isEmpty = true)
    (h : Tracks (history.sinceSummary ++ [o]) t.partitionDetails) :
    History.Due history o ↔ t.partitionDetails.shouldClose = true := by
  rw [h.shouldClose_iff, History.Due, and_iff_right hempty]

theorem not_due_of_batch (hbatch : callback.eventBatch ≠ []) (processed logged : Bool) :
    ¬History.Due history
      ⟨callback.partitionId, callback.eventBatch.length, processed, logged⟩ := fun hdue ↦
  Bool.false_ne_true ((isEmpty_of_batch hbatch processed logged).symm.trans hdue.1)

theorem written_of_excess {k k' : Counted} {n : ℕ} (hcounted : k'.excess = k.excess)
    (h : n + k.handler.skippedEventsCount + k.handler.ingestedEventsCount = k.returned) :
    n + k'.handler.skippedEventsCount + k'.handler.ingestedEventsCount = k'.returned := by
  unfold Counted.excess at hcounted
  omega

/-- **A callback keeps the invariant.** -/
theorem invariant_of_stepEnds {t : State} (h : Invariant ⟨history, s⟩)
    (hstep : StepEnds s callback o t) : Invariant ⟨history ++ [o], t⟩ := by
  obtain ⟨⟨hreceived, hwritten, hlogged, hcount⟩, htracks⟩ := h
  dsimp only at hreceived hwritten hlogged hcount htracks
  cases hstep with
  | empty hempty hclose =>
    have htracks' := htracks.afterEmpty callback false
    refine ⟨⟨?_, hwritten, History.forall_concat hlogged ?_, ?_⟩, ?_⟩
    · rw [History.receivedCount_concat, ← hreceived, total_afterEmpty]
      rfl
    · rw [due_iff rfl htracks', hclose]
    · rw [List.countP_append, ← hcount]
      rfl
    · rw [History.sinceSummary_concat]
      exact htracks'
  | summarized hempty hclose =>
    have htracks' := htracks.afterEmpty callback true
    refine ⟨⟨?_, ?_, History.forall_concat hlogged ?_, ?_⟩, ?_⟩
    · rw [History.receivedCount_concat, ← hreceived, State.summarized, List.map_append,
        List.sum_append, List.map_singleton, List.sum_singleton, total_afterEmpty]
      rfl
    · rw [State.summarized, List.map_append, List.sum_append, List.map_singleton,
        List.sum_singleton]
      exact (Nat.add_assoc _ _ _).symm.trans hwritten
    · rw [due_iff rfl htracks', hclose]
    · rw [State.summarized, List.length_append, List.countP_append, ← hcount]
      rfl
    · rw [History.sinceSummary_concat]
      exact .nil
  | processed hbatch hcounted =>
    refine ⟨⟨?_, written_of_excess hcounted hwritten, History.forall_concat hlogged ?_, ?_⟩, ?_⟩
    · rw [History.receivedCount_concat, ← hreceived, total_afterBatch]
      exact (Nat.add_assoc _ _ _).symm
    · exact iff_of_false Bool.false_ne_true (not_due_of_batch hbatch true false)
    · rw [List.countP_append, ← hcount]
      rfl
    · rw [History.sinceSummary_concat]
      exact htracks.afterBatch callback
  | raised hbatch hcounted =>
    -- the events are not counted as received, but the partition counts as seen
    refine ⟨⟨?_, written_of_excess hcounted hwritten, History.forall_concat hlogged ?_, ?_⟩, ?_⟩
    · rw [History.receivedCount_concat, ← hreceived, PartitionDetails.total_touch]
      rfl
    · exact iff_of_false Bool.false_ne_true (not_due_of_batch hbatch false false)
    · rw [List.countP_append, ← hcount]
      rfl
    · rw [History.sinceSummary_concat]
      exact htracks.touch hbatch

end Invariant

/-- **The statistics.** After any callbacks, in any order, the summaries and the counters add up to
what was processed and written, and a summary was logged whenever all partitions were idle. -/
theorem conserves_run (handler : EventHubConsumerHandler) (index : List Event)
    (callbacks : List Callback) : Conserves (run handler index callbacks) := by
  have hinvariant : Invariant (run handler index callbacks) :=
    List.foldlRecOn callbacks (step handler) (invariant_initial index) fun w hw callback _ ↦
      invariant_of_stepEnds hw (stepEnds w.state callback)
  exact hinvariant.toConserves

/-- The second empty callback of a partition without events logs a summary. -/
example : (run EventHubConsumerHandler.sampleHandler [] [⟨0, [], none⟩,
    ⟨0, [], none⟩]).history.map Observed.logged = [false, true] := by decide +kernel

end EventStats

end MsSecurity
