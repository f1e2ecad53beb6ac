import MsSecurity.EventHub.LoadBalance
import MsSecurity.EventHub.Receiver
import MsSecurity.Python.Dictionary
import Mathlib.Data.List.Dedup

/-!
# The event processor

The SDK's `EventProcessor` has two threads over one dictionary of consumers, one for each partition.
The load-balancing thread claims partitions, creates consumers for those that are new and stops the
others; the receive loop visits the consumers in turn, hands over what has arrived, and closes a
consumer that was stopped or whose callback raised.

A thread is a state machine here: it takes one step with the memory of the processor, or makes the
request it waits with. The lock of the processor is left out, so that more orders of steps are
considered than it allows.
-/

namespace MsSecurity

/-! ## The ownership manager -/

namespace OwnershipManager

variable (manager : OwnershipManager)

/-- `claim_ownership`, for what it leaves in `owned_partitions`. -/
def ownPartitions (now : ℚ) (allPartitionIds : List ℕ) (draws : Draws) :
    StoreProg (List Acquired) := do
  let ownershipList ← KVCheckpointStore.listOwnership manager.hub
  let toClaim := manager.balanceOwnership now ownershipList allPartitionIds draws
  if toClaim ≠ [] then KVCheckpointStore.claimOwnership toClaim else return []

theorem claimOwnership_eq (now : ℚ) (allPartitionIds : List ℕ) (draws : Draws) :
    manager.claimOwnership now allPartitionIds draws = do
      let ownedPartitions ← manager.ownPartitions now allPartitionIds draws
      return ownedPartitions.map fun a ↦ a.ownership.partitionId := by
  rw [claimOwnership, ownPartitions, Prog.bind_assoc]
  refine congrArg _ (funext fun ownershipList ↦ ?_)
  dsimp only
  split_ifs
  · rfl
  · rfl

/-- The ownerships that `release_ownership` looks for. One that was claimed has a time. -/
def isReleasable (partitionId : ℕ) (now : ℚ) (o : Ownership) : Bool :=
  o.partitionId = partitionId ∧ o.ownerId = manager.ownerId ∧
    o.lastModifiedTime.any fun time ↦ now < (time : ℚ) + manager.ownershipTimeout

/-- `release_ownership`, which resets the owner of the first of them. -/
def releaseOwnership (ownedPartitions : List Ownership) (partitionId : ℕ) (now : ℚ) :
    StoreProg Unit :=
  match ownedPartitions.filter (manager.isReleasable partitionId now) with
  | [] => return ()
  | ownership :: rest => do
    let _ ← KVCheckpointStore.claimOwnership ({ ownership with ownerId := "" } :: rest)
    return ()

end OwnershipManager

/-! ## The threads -/

/-- A pass of the receive loop: the consumers it has still to visit, and whether it closes them all
because the processor has been stopped. -/
structure Round where
  pending : List ℕ
  shutdown : Bool

/-- Where the receive loop is. -/
inductive ReceiveState
  | looping
  | visiting (round : Round)
  /-- In `consumer.receive`, before a try. -/
  | connecting (partitionId retriedTimes : ℕ) (round : Round)
  /-- In `consumer.receive`, after the tries. -/
  | deciding (partitionId : ℕ) (round : Round)
  /-- In `_on_event_received`, with what is left of the callback. -/
  | handling (partitionId : ℕ) (eventBatch : List ℕ) (rest : StoreProg Unit) (round : Round)
  /-- At the start of `_close_consumer`. -/
  | closing (partitionId : ℕ) (round : Round)
  /-- The consumer is closed and its ownership not yet released. -/
  | closed (partitionId : ℕ) (round : Round)
  /-- In `release_ownership`. -/
  | releasing (rest : StoreProg Unit) (round : Round)
  | ended

/-- What the receive loop does not decide itself. -/
inductive ReceiveChoice
  | go
  | attempt (attempt : Attempt)
  /-- Whether `max_wait_time` is over. -/
  | clock (passed : Bool)
  | answer (outcome : Outcome)
  /-- Whether `consumer.close` raises. -/
  | close (fault : Option PyError)
  | release (now : ℚ)

/-- Where a link starts that the choice opens. -/
def ReceiveChoice.opens : ReceiveChoice → Option ℕ
  | .attempt tried => tried.opens
  | _ => none

/-- Where the load-balancing thread is. -/
inductive BalanceState
  | looping
  | claiming (rest : StoreProg (List Acquired))
  | listing (newlyClaimed toCancel : List ℕ) (rest : StoreProg (List Checkpoint))
  | creating (newlyClaimed toCancel : List ℕ) (checkpoints : List Checkpoint)
  | cancelling (toCancel : List ℕ)
  | ended

/-- What the load-balancing thread does not decide itself. A set is gone through in any order. -/
inductive BalanceChoice
  | go
  | claim (partitionIds : Except PyError (List ℕ)) (now : ℚ) (draws : Draws)
  | answer (outcome : Outcome)
  | create (partitionId : ℕ) (fault : Option PyError)
  | cancel (partitionId : ℕ)

structure EventProcessor where
  manager : OwnershipManager
  running : Bool
  cachedPartitionIds : List ℕ
  ownedPartitions : List Ownership
  consumers : List (ℕ × EventHubConsumer)
  receiving : ReceiveState
  balancing : BalanceState

/-- One request of a program. -/
def ConsumerWorld.advance {α : Type} (w : ConsumerWorld) (outcome : Outcome) :
    StoreProg α → Option (StoreProg α × ConsumerWorld)
  | .call e next => (w.serve 0 e outcome).map fun (r, w) ↦ (next r, w)
  | .pure _ => none
  | .throw _ => none

namespace EventProcessor

/-- `max_retries`. -/
def maxRetries : ℕ := 3

/-- `max_batch_size`. -/
def maxBatchSize : ℕ := 300

/-- `EventProcessor.__init__`, with the settings of the input, and `start`. -/
def start (hub : HubId) (ownerId : String) : EventProcessor where
  manager := ⟨hub, ownerId, 300, .greedy⟩
  running := true
  cachedPartitionIds := []
  ownedPartitions := []
  consumers := []
  receiving := .looping
  balancing := .looping

variable (x : EventProcessor)

def setConsumer (partitionId : ℕ) (consumer : EventHubConsumer) : EventProcessor :=
  { x with consumers := setKey x.consumers partitionId consumer }

/-- `start` returns or raises, and `stop` is called. -/
def finished : EventProcessor := { x with running := false, receiving := .ended }

/-! ## The receive loop -/

/-- One consumer is visited. -/
def visit (partitionId : ℕ) (round : Round) (consumer : EventHubConsumer) : ReceiveState :=
  if round.shutdown ∨ consumer.stop then .closing partitionId round
  else if consumer.messageBuffer.length < maxBatchSize then .connecting partitionId 0 round
  else .deciding partitionId round

/-- The next consumer is visited, or the pass is over. -/
def visitNext (round : Round) : Option EventProcessor :=
  match round.pending with
  | [] => some (if round.shutdown then x.finished else { x with receiving := .looping })
  | partitionId :: pending => (x.consumers.lookup partitionId).map fun consumer ↦
      { x with receiving := visit partitionId { round with pending := pending } consumer }

/-- A try of `consumer.receive`. -/
def receiveOnce (event : ℕ → HubEvent) (partitionId retriedTimes : ℕ) (round : Round)
    (attempt : Attempt) (consumer : EventHubConsumer) : EventProcessor :=
  let worked := consumer.work attempt
  match attempt.failure with
  | none => { x.setConsumer partitionId worked with receiving := .deciding partitionId round }
  | some .unopened => { x.setConsumer partitionId worked with receiving := .visiting round }
  | some (.retried closed) =>
    { x.setConsumer partitionId (worked.reset event closed) with
      receiving :=
        if maxRetries < retriedTimes + 1 then .closing partitionId round
        else .connecting partitionId (retriedTimes + 1) round }
  | some (.raised e) =>
    if e.isException then
      { x.setConsumer partitionId worked with receiving := .closing partitionId round }
    else x.finished

/-- The end of `consumer.receive`, where events are handed over: `_on_event_received`. -/
def handOver (event : ℕ → HubEvent) (partitionId : ℕ) (round : Round) (passed : Bool)
    (consumer : EventHubConsumer) : EventProcessor :=
  if maxBatchSize ≤ consumer.messageBuffer.length ∨ passed then
    let eventBatch := consumer.batch maxBatchSize
    let context : PartitionContext := ⟨x.manager.hub, partitionId, eventBatch.getLast?.map event⟩
    { x.setConsumer partitionId (consumer.taken maxBatchSize) with
      receiving := .handling partitionId eventBatch
        (EventHubConsumerHandler.onEventBatch context (eventBatch.map event)) round }
  else { x with receiving := .visiting round }

/-- The end of a callback: the consumer of one that has raised an `Exception` is closed. -/
def endCallback (partitionId : ℕ) (round : Round) : StoreProg Unit → Option EventProcessor
  | .call _ _ => none
  | .pure _ => some { x with receiving := .visiting round }
  | .throw e => some <|
      if e.isException then { x with receiving := .closing partitionId round } else x.finished

/-- `_close_consumer`, up to `release_ownership`. -/
def closeConsumer (partitionId : ℕ) (round : Round) (fault : Option PyError) : EventProcessor :=
  match fault with
  | some _ => x.finished
  | none => { x with
      consumers := x.consumers.filter fun p ↦ p.1 ≠ partitionId
      receiving := .closed partitionId round }

/-- The start of `release_ownership`, which resets the owner of what it releases. -/
def beginRelease (partitionId : ℕ) (round : Round) (now : ℚ) : EventProcessor :=
  let first := x.ownedPartitions.findIdx (x.manager.isReleasable partitionId now)
  { x with
    ownedPartitions := x.ownedPartitions.modify first fun o ↦ { o with ownerId := "" }
    receiving := .releasing
      (x.manager.releaseOwnership x.ownedPartitions partitionId now) round }

def endRelease (round : Round) : StoreProg Unit → Option EventProcessor
  | .call _ _ => none
  | .pure _ => some { x with receiving := .visiting round }
  | .throw _ => some x.finished

/-- One step of `start`. -/
def receiveStep (hub : Hub) (w : ConsumerWorld) :
    ReceiveState → ReceiveChoice → Option (EventProcessor × ConsumerWorld)
  | .looping, .go =>
    some ({ x with receiving := .visiting ⟨x.consumers.map Prod.fst, !x.running⟩ }, w)
  | .visiting round, .go => (x.visitNext round).map (·, w)
  | .connecting partitionId retriedTimes round, .attempt attempt =>
    (x.consumers.lookup partitionId).map fun consumer ↦
      (x.receiveOnce (hub.event partitionId) partitionId retriedTimes round attempt consumer, w)
  | .deciding partitionId round, .clock passed =>
    (x.consumers.lookup partitionId).map fun consumer ↦
      (x.handOver (hub.event partitionId) partitionId round passed consumer, w)
  | .handling partitionId eventBatch rest round, .answer outcome =>
    (w.advance outcome rest).map fun (rest, w) ↦
      ({ x with receiving := .handling partitionId eventBatch rest round }, w)
  | .handling partitionId _ rest round, .go => (x.endCallback partitionId round rest).map (·, w)
  | .closing partitionId round, .close fault => some (x.closeConsumer partitionId round fault, w)
  | .closed partitionId round, .release now => some (x.beginRelease partitionId round now, w)
  | .releasing rest round, .answer outcome =>
    (w.advance outcome rest).map fun (rest, w) ↦
      ({ x with receiving := .releasing rest round }, w)
  | .releasing rest round, .go => (x.endRelease round rest).map (·, w)
  | _, _ => none

/-- The consumer that tries to receive, with its partition. -/
def connecting : Option (ℕ × EventHubConsumer) :=
  match x.receiving with
  | .connecting partitionId _ _ => (x.consumers.lookup partitionId).map (partitionId, ·)
  | _ => none

/-- The service: a new link starts where the consumer asks it to. -/
def Serves (hub : Hub) (choice : ReceiveChoice) : Prop :=
  ∀ p ∈ x.connecting, p.2.link = none → ∀ first ∈ choice.opens, hub.StartsAt p.1 p.2.offset first

/-! ## The load-balancing thread -/

/-- `except Exception`: the thread sleeps, and goes on. -/
def balanceFailed (e : PyError) : EventProcessor :=
  -- the handler of the add-on would end the thread, since it and `_process_error` use the context
  -- that is `None` here; going on leaves more steps to consider
  { x with balancing := if e.isException then .looping else .ended }

/-- The start of an iteration of `_load_balancing`. -/
def beginClaim (partitionIds : Except PyError (List ℕ)) (now : ℚ) (draws : Draws) :
    EventProcessor :=
  let claim (partitionIds : List ℕ) : EventProcessor :=
    { x with
      cachedPartitionIds := partitionIds
      balancing := .claiming (x.manager.ownPartitions now partitionIds draws) }
  if x.cachedPartitionIds = [] then
    match partitionIds with
    | .ok partitionIds => claim partitionIds
    | .error e => x.balanceFailed e
  else claim x.cachedPartitionIds

/-- What follows a claim. -/
def claimed (acquired : List Acquired) : EventProcessor :=
  let ownedPartitions := acquired.map Acquired.ownership
  let claimedIds := ownedPartitions.map Ownership.partitionId
  let existing := x.consumers.map Prod.fst
  let newlyClaimed := (claimedIds.filter (· ∉ existing)).dedup
  let toCancel := existing.filter (· ∉ claimedIds)
  { x with
    ownedPartitions := ownedPartitions
    balancing :=
      if newlyClaimed ≠ [] then
        .listing newlyClaimed toCancel (KVCheckpointStore.listCheckpoints x.manager.hub)
      else .cancelling toCancel }

def endClaim : StoreProg (List Acquired) → Option EventProcessor
  | .call _ _ => none
  | .pure acquired => some (x.claimed acquired)
  | .throw e => some (x.balanceFailed e)

/-- What follows `get_checkpoints`. -/
def endListing (newlyClaimed toCancel : List ℕ) :
    StoreProg (List Checkpoint) → Option EventProcessor
  | .call _ _ => none
  | .pure checkpoints => some { x with balancing := .creating newlyClaimed toCancel checkpoints }
  | .throw e => some (x.balanceFailed e)

/-- `_create_tasks_for_claimed_ownership`, for one partition. -/
def createConsumer (checkpoints : List Checkpoint) (partitionId : ℕ) : EventProcessor :=
  if partitionId ∈ x.consumers.map Prod.fst then x
  else x.setConsumer partitionId <| EventHubConsumer.start <|
    checkpoints.reverse.find? fun c ↦ c.partitionId = partitionId

/-- One round of the loop of `_create_tasks_for_claimed_ownership`; it may raise. -/
def createNext (newlyClaimed toCancel : List ℕ) (checkpoints : List Checkpoint)
    (partitionId : ℕ) : Option PyError → EventProcessor
  | some e => x.balanceFailed e
  | none => { x.createConsumer checkpoints partitionId with
      balancing := .creating (newlyClaimed.erase partitionId) toCancel checkpoints }

/-- `_cancel_tasks_for_partitions`, for one partition. -/
def cancelConsumer (partitionId : ℕ) : EventProcessor :=
  match x.consumers.lookup partitionId with
  | some consumer => x.setConsumer partitionId { consumer with stop := true }
  | none => x

/-- One step of `_load_balancing`. -/
def balanceStep (w : ConsumerWorld) :
    BalanceState → BalanceChoice → Option (EventProcessor × ConsumerWorld)
  | .looping, .go => if x.running then none else some ({ x with balancing := .ended }, w)
  | .looping, .claim partitionIds now draws =>
    if x.running then some (x.beginClaim partitionIds now draws, w) else none
  | .claiming rest, .answer outcome =>
    (w.advance outcome rest).map fun (rest, w) ↦ ({ x with balancing := .claiming rest }, w)
  | .claiming rest, .go => (x.endClaim rest).map (·, w)
  | .listing newlyClaimed toCancel rest, .answer outcome =>
    (w.advance outcome rest).map fun (rest, w) ↦
      ({ x with balancing := .listing newlyClaimed toCancel rest }, w)
  | .listing newlyClaimed toCancel rest, .go =>
    (x.endListing newlyClaimed toCancel rest).map (·, w)
  | .creating newlyClaimed toCancel checkpoints, .create partitionId fault =>
    if partitionId ∈ newlyClaimed then
      some (x.createNext newlyClaimed toCancel checkpoints partitionId fault, w)
    else none
  | .creating newlyClaimed toCancel _, .go =>
    if newlyClaimed = [] then some ({ x with balancing := .cancelling toCancel }, w) else none
  | .cancelling toCancel, .cancel partitionId =>
    if partitionId ∈ toCancel then
      some ({ x.cancelConsumer partitionId with
        balancing := .cancelling (toCancel.erase partitionId) }, w)
    else none
  | .cancelling toCancel, .go =>
    if toCancel = [] then some ({ x with balancing := .looping }, w) else none
  | _, _ => none

end EventProcessor

end MsSecurity
