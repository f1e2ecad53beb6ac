import MsSecurity.EventHub.CheckpointStore
import MsSecurity.Transition.Simulation
import Mathlib.Data.List.Nodup

/-!
# The store of partitions

What the document of `KVCheckpointStore` is for is one state for each partition: who owns it,
against which etag, and how far it has been read. A claim goes through for the partitions whose etag
is the one that is stored, and gives each of these a new one. This module says so for all operations
(`PartitionStore.Step`) without a document; that the code does it is shown in `EventHub.OneClient`.
-/

namespace MsSecurity

/-! ## The operations -/

/-- What is kept of a partition. -/
structure PartitionState where
  ownerId : String
  etag : String
  lastModifiedTime : ℤ
  offset : String
  sequenceNumber : ℤ

/-- A state for each of the partitions below `n`, and the order they are listed in. -/
structure PartitionStore (n : ℕ) where
  order : List ℕ
  perm : order.Perm (List.range n)
  state : ℕ → PartitionState

/-- An operation of one client. -/
inductive StoreOp
  | construct (partitionIds : List ℕ)
  | claimOwnership (ownerships : List Ownership)
  | updateCheckpoint (checkpoint : Checkpoint)
  | listOwnership (hub : HubId)
  | listCheckpoints (hub : HubId)

/-- What an operation returns. -/
abbrev StoreOp.Result : StoreOp → Type
  | .construct _ => Unit
  | .claimOwnership _ => List Acquired
  | .updateCheckpoint _ => Unit
  | .listOwnership _ => List Ownership
  | .listCheckpoints _ => List Checkpoint

/-- The client constructs the store for the partitions below `n`, and claims known partitions, each
once at a time. -/
def StoreOp.Legal (n : ℕ) : StoreOp → Prop
  | .construct partitionIds => partitionIds.Perm (List.range n)
  | .claimOwnership ownerships => (ownerships.map Ownership.partitionId).Nodup ∧
      ∀ ownership ∈ ownerships, ownership.partitionId < n
  | .updateCheckpoint _ => True
  | .listOwnership _ => True
  | .listCheckpoints _ => True

/-- The operation raises, because of a request that failed. -/
def Failed {α : Type} (mayFail : Prop) (result : Except PyError α) : Prop :=
  mayFail ∧ ∃ e, result = .error e

/-- The operation returns the value, unless a request failed. -/
def Returned {α : Type} (mayFail : Prop) (value : α) (result : Except PyError α) : Prop :=
  result = .ok value ∨ Failed mayFail result

namespace PartitionStore

variable {n : ℕ} (store : PartitionStore n)

/-- Every partition in the order listed, without an owner and at its start. -/
structure Initial (partitionIds : List ℕ) : Prop where
  order : store.order = partitionIds
  ownerId : ∀ i ∈ partitionIds, (store.state i).ownerId = ""
  offset : ∀ i ∈ partitionIds, (store.state i).offset = ""
  sequenceNumber : ∀ i ∈ partitionIds, (store.state i).sequenceNumber = 0

/-- The ownerships that are claimed against the etag stored. -/
def wanted (ownerships : List Ownership) : List Ownership :=
  ownerships.filter fun ownership ↦
    ownership.etag = some (store.state ownership.partitionId).etag

/-- Owner, etag and time of the partitions that were acquired are replaced. -/
def claim (acquired : List Acquired) : PartitionStore n :=
  { store with
    state := fun i ↦ match acquired.find? fun a ↦ a.claimed.partitionId = i with
      | some a => { store.state i with
          ownerId := a.claimed.ownerId
          etag := a.etag
          lastModifiedTime := a.lastModifiedTime.getD (store.state i).lastModifiedTime }
      | none => store.state i }

/-- The etag is not stored for any partition. -/
def NewEtag (etag : String) : Prop := ∀ i ∈ store.order, (store.state i).etag ≠ etag

/-- Offset and sequence number of one partition are replaced. -/
def progress (checkpoint : Checkpoint) : PartitionStore n :=
  { store with
    state := fun i ↦
      if i = checkpoint.partitionId then
        { store.state i with
          offset := checkpoint.offset
          sequenceNumber := checkpoint.sequenceNumber }
      else store.state i }

def listOwnership (hub : HubId) : List Ownership :=
  store.order.map fun i ↦ {
    hub := hub
    partitionId := i
    ownerId := (store.state i).ownerId
    etag := some (store.state i).etag
    lastModifiedTime := some (store.state i).lastModifiedTime }

def listCheckpoints (hub : HubId) : List Checkpoint :=
  store.order.map fun i ↦ {
    hub := hub
    partitionId := i
    offset := (store.state i).offset
    sequenceNumber := (store.state i).sequenceNumber }

/-- The steps of a store that may not be there yet; without it, all but its construction raises. An
operation whose request fails may have been stopped half-way: a claim after some of the partitions,
and any other after it took effect. -/
def Step (mayFail : Prop) :
    Steps (Option (PartitionStore n)) StoreOp fun op ↦ Except PyError op.Result
  | none, .construct partitionIds, result, next =>
    (∃ store, next = some store ∧ store.Initial partitionIds ∧ Returned mayFail () result) ∨
      next = none ∧ Failed mayFail result
  | some store, .construct _, result, next => next = some store ∧ Returned mayFail () result
  | some store, .claimOwnership ownerships, result, next => ∃ acquired,
    next = some (store.claim acquired) ∧
      acquired.map Acquired.claimed <+: store.wanted ownerships ∧
      (acquired.map Acquired.etag).Nodup ∧
      (∀ a ∈ acquired, store.NewEtag a.etag ∧
        a.ownership.etag = some ((store.claim acquired).state a.claimed.partitionId).etag ∧
        a.ownership.lastModifiedTime =
          some ((store.claim acquired).state a.claimed.partitionId).lastModifiedTime) ∧
      (result = .ok acquired ∧ acquired.map Acquired.claimed = store.wanted ownerships ∨
        Failed mayFail result)
  | some store, .updateCheckpoint checkpoint, result, next =>
    next = some (store.progress checkpoint) ∧ Returned mayFail () result ∨
      next = some store ∧ Failed mayFail result
  | some store, .listOwnership hub, result, next =>
    next = some store ∧ Returned mayFail (store.listOwnership hub) result
  | some store, .listCheckpoints hub, result, next =>
    next = some store ∧ Returned mayFail (store.listCheckpoints hub) result
  | none, _, result, next => next = none ∧ ∃ e, result = .error e

end PartitionStore

namespace PartitionStore

variable {n : ℕ} {store : PartitionStore n} {a : Acquired} {acquired : List Acquired} {i : ℕ}

/-! ## Claims -/

theorem mem_order_iff : i ∈ store.order ↔ i < n := store.perm.mem_iff.trans List.mem_range

theorem nodup_order : store.order.Nodup := store.perm.nodup_iff.mpr List.nodup_range

theorem state_claim_of_not_mem (h : i ∉ acquired.map fun a ↦ a.claimed.partitionId) :
    (store.claim acquired).state i = store.state i := by
  have hfind : acquired.find? (fun a ↦ a.claimed.partitionId = i) = none := by
    rw [List.find?_eq_none]
    intro a ha hi
    exact h (List.mem_map.mpr ⟨a, ha, of_decide_eq_true hi⟩)
  rw [claim]
  dsimp only
  rw [hfind]

/-- A partition that is not acquired again is as its first acquisition leaves it. -/
theorem claim_cons (h : a.claimed.partitionId ∉ acquired.map fun b ↦ b.claimed.partitionId) :
    (store.claim [a]).claim acquired = store.claim (a :: acquired) := by
  have hstate : ((store.claim [a]).claim acquired).state = (store.claim (a :: acquired)).state := by
    funext i
    by_cases hi : a.claimed.partitionId = i
    · rw [state_claim_of_not_mem (hi ▸ h)]
      simp [claim, hi]
    · simp [claim, hi]
  exact congrArg (PartitionStore.mk store.order store.perm) hstate

theorem state_claim_singleton (a : Acquired) (i : ℕ) : (store.claim [a]).state i =
    if i = a.claimed.partitionId then { store.state i with
      ownerId := a.claimed.ownerId
      etag := a.etag
      lastModifiedTime := a.lastModifiedTime.getD (store.state i).lastModifiedTime }
    else store.state i := by
  by_cases hi : i = a.claimed.partitionId
  · simp [claim, hi]
  · simp [claim, hi, Ne.symm hi]

theorem state_claim_of_mem (hnodup : (acquired.map fun a ↦ a.claimed.partitionId).Nodup)
    (ha : a ∈ acquired) :
    ((store.claim acquired).state a.claimed.partitionId).etag = a.etag ∧
      ((store.claim acquired).state a.claimed.partitionId).lastModifiedTime =
        a.lastModifiedTime.getD (store.state a.claimed.partitionId).lastModifiedTime := by
  have hfind : acquired.find? (fun b ↦ b.claimed.partitionId = a.claimed.partitionId) =
      some a := by
    cases h : acquired.find? fun b ↦ b.claimed.partitionId = a.claimed.partitionId with
    | none => exact absurd (decide_eq_true rfl) (List.find?_eq_none.mp h a ha)
    | some b =>
      have hb : b.claimed.partitionId = a.claimed.partitionId := by
        simpa using List.find?_some h
      rw [List.inj_on_of_nodup_map hnodup (List.mem_of_find?_eq_some h) ha hb]
  rw [claim]
  dsimp only
  rw [hfind]
  exact ⟨rfl, rfl⟩

/-! ## The order of a store -/

theorem order_of_step {mayFail : Prop} {op : StoreOp}
    {result : Except PyError op.Result} {next : Option (PartitionStore n)}
    (h : Step mayFail (some store) op result next) :
    ∃ store' : PartitionStore n, next = some store' ∧ store'.order = store.order := by
  cases op with
  | construct partitionIds => exact ⟨store, h.1, rfl⟩
  | claimOwnership ownerships =>
    obtain ⟨acquired, rfl, -⟩ := h
    exact ⟨store.claim acquired, rfl, rfl⟩
  | updateCheckpoint checkpoint =>
    rcases h with ⟨rfl, -⟩ | ⟨rfl, -⟩
    · exact ⟨store.progress checkpoint, rfl, rfl⟩
    · exact ⟨store, rfl, rfl⟩
  | listOwnership hub => exact ⟨store, h.1, rfl⟩
  | listCheckpoints hub => exact ⟨store, h.1, rfl⟩

theorem order_of_observedRun_some {mayFail : Prop} {store' : PartitionStore n}
    {observed : List ((op : StoreOp) × Except PyError op.Result)}
    (h : ObservedRun (Step mayFail) (some store) observed (some store')) :
    store'.order = store.order := by
  generalize hs : some store = s at h
  generalize ht : some store' = t at h
  induction h generalizing store with
  | nil =>
    obtain rfl := Option.some.inj (hs.trans ht.symm)
    rfl
  | cons hstep _ ih =>
    subst hs
    obtain ⟨store₁, rfl, horder⟩ := order_of_step hstep
    exact (ih rfl ht).trans horder

/-- The order is that of a list that the store was constructed with. -/
theorem order_of_observedRun {mayFail : Prop}
    {observed : List ((op : StoreOp) × Except PyError op.Result)}
    (h : ObservedRun (Step mayFail) none observed (some store)) :
    ∃ result, ⟨.construct store.order, result⟩ ∈ observed := by
  generalize hs : (none : Option (PartitionStore n)) = s at h
  generalize ht : some store = t at h
  induction h with
  | nil => exact absurd (hs.trans ht.symm) (Option.some_ne_none _).symm
  | @cons _ next _ op result rest hstep hrest ih =>
    subst hs ht
    have hlater (hnext : next = none) : ∃ result', ⟨.construct store.order, result'⟩ ∈
        (⟨op, result⟩ :: rest : List ((op : StoreOp) × Except PyError op.Result)) := by
      obtain ⟨result', hmem⟩ := ih hnext.symm rfl
      exact ⟨result', List.mem_cons_of_mem _ hmem⟩
    cases op with
    | construct partitionIds =>
      rcases hstep with ⟨store₁, rfl, hinitial, -⟩ | ⟨hnext, -⟩
      · rw [order_of_observedRun_some hrest, hinitial.order]
        exact ⟨result, List.mem_cons_self⟩
      · exact hlater hnext
    | claimOwnership ownerships => exact hlater hstep.1
    | updateCheckpoint checkpoint => exact hlater hstep.1
    | listOwnership hub => exact hlater hstep.1
    | listCheckpoints hub => exact hlater hstep.1

end PartitionStore

end MsSecurity
