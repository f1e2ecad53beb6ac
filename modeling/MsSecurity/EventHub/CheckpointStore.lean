import MsSecurity.Python.Value
import MsSecurity.Transition.Program

/-!
# The checkpoint store of the event hub input

`KVCheckpointStore` keeps the ownership and the progress of all partitions of an input in one
document of the KV store. Every operation reads the document, edits it and writes it back whole.
The operations are programs over the requests a call makes to its surroundings, so that a run may
interleave them at each of these requests.

A partition id is the decimal text of a number, and is that number here; the source converts freely
between the two.
-/

namespace MsSecurity

/-! ## Data -/

/-- What a consumer reads: namespace, event hub and consumer group. -/
structure HubId where
  fullyQualifiedNamespace : String
  eventhubName : String
  consumerGroup : String
  deriving DecidableEq

/-- One partition's entry of the stored document. -/
structure Record where
  partitionId : ℕ
  ownerId : String
  etag : String
  lastModifiedTime : ℤ
  offset : String
  sequenceNumber : ℤ
  deriving DecidableEq

/-- The ownership of a partition, as the SDK exchanges it. -/
structure Ownership where
  hub : HubId
  partitionId : ℕ
  ownerId : String
  etag : Option String
  lastModifiedTime : Option ℤ
  deriving DecidableEq

/-- The checkpoint of a partition, as the SDK exchanges it. -/
structure Checkpoint where
  hub : HubId
  partitionId : ℕ
  offset : String
  sequenceNumber : ℤ
  deriving DecidableEq

/-- An ownership that was claimed: the object as it was handed in, and what `claim_ownership` wrote
into its `etag` and `last_modified_time`. -/
structure Acquired where
  claimed : Ownership
  etag : String
  lastModifiedTime : Option ℤ
  deriving DecidableEq

/-- The object the caller gets back. -/
def Acquired.ownership (a : Acquired) : Ownership :=
  { a.claimed with etag := some a.etag, lastModifiedTime := a.lastModifiedTime }

/-- An event, as far as the checkpoint is concerned. -/
structure HubEvent where
  offset : String
  sequenceNumber : ℤ
  deriving DecidableEq

/-! ## Requests -/

/-- What a write of the document is for. The store does not look at it. -/
inductive Change
  | checkpoint (c : Checkpoint)
  | claim (a : Acquired)
  | initial (records : List Record)
  deriving DecidableEq

/-- What a call asks of its surroundings. -/
inductive Request
  /-- `self.checkpoint.get`. -/
  | get
  /-- `self.checkpoint.update`, the whole document. -/
  | update (change : Change) (records : List Record)
  /-- The DELETE request of `delete_checkpoint`. -/
  | delete
  /-- `uuid.uuid4()` and `time.time()`. -/
  | stamp
  /-- A call of `_select_elements`. -/
  | selectElements (partitionId : ℕ) (event : HubEvent)
  deriving DecidableEq

/-- The answers. There is no document before it is initialized. -/
abbrev Answer : Request → Type
  | .get => Except PyError (Option (List Record))
  | .update _ _ => Except PyError Unit
  | .delete => Except PyError Unit
  | .stamp => String × ℤ
  | .selectElements _ _ => Except PyError Unit

abbrev StoreProg (α : Type) := Prog Request Answer PyError α

/-- `self.checkpoint.get(self.checkpoint_key)`. -/
def kvGet : StoreProg (Option (List Record)) := do
  let answer ← Prog.perform Request.get
  Prog.lift answer

/-- The document, where it is iterated or measured: `None` is neither. -/
def kvRecords : StoreProg (List Record) := do
  match ← kvGet with
  | some records => return records
  | none => Prog.throw .typeError

/-- `self.checkpoint.update(self.checkpoint_key, records)`. -/
def kvUpdate (change : Change) (records : List Record) : StoreProg Unit := do
  let answer ← Prog.perform (Request.update change records)
  Prog.lift answer

/-! ## Editing the document -/

/-- Edit the first record of a partition. -/
def modifyRecord (partitionId : ℕ) (f : Record → Record) : List Record → List Record
  | [] => []
  | record :: records =>
    if record.partitionId = partitionId then f record :: records
    else record :: modifyRecord partitionId f records

/-- What `update_checkpoint` sets. -/
def Checkpoint.edit (c : Checkpoint) (record : Record) : Record :=
  { record with offset := c.offset, sequenceNumber := c.sequenceNumber }

/-- What `claim_ownership` sets. -/
def Acquired.edit (a : Acquired) (record : Record) : Record :=
  { record with
    ownerId := a.claimed.ownerId
    etag := a.etag
    lastModifiedTime := a.lastModifiedTime.getD record.lastModifiedTime }

/-- The document a write is meant to make of another. -/
def Change.apply : Change → List Record → List Record
  | .checkpoint c => modifyRecord c.partitionId c.edit
  | .claim a => modifyRecord a.claimed.partitionId a.edit
  | .initial records => fun _ ↦ records

theorem map_partitionId_modifyRecord {partitionId : ℕ} {f : Record → Record}
    (hf : ∀ r, (f r).partitionId = r.partitionId) (records : List Record) :
    (modifyRecord partitionId f records).map Record.partitionId =
      records.map Record.partitionId := by
  induction records with
  | nil => rfl
  | cons record records ih =>
    rw [modifyRecord]
    split_ifs
    · rw [List.map_cons, List.map_cons, hf]
    · rw [List.map_cons, List.map_cons, ih]

theorem mem_modifyRecord {partitionId : ℕ} {f : Record → Record} {records : List Record}
    {record : Record} (h : record ∈ modifyRecord partitionId f records) :
    record ∈ records ∨ ∃ r ∈ records, r.partitionId = partitionId ∧ record = f r := by
  induction records with
  | nil => exact Or.inl h
  | cons r records ih =>
    rw [modifyRecord] at h
    split_ifs at h with hr
    · rcases List.mem_cons.mp h with rfl | h
      · exact Or.inr ⟨r, List.mem_cons_self, hr, rfl⟩
      · exact Or.inl (List.mem_cons_of_mem _ h)
    · rcases List.mem_cons.mp h with rfl | h
      · exact Or.inl List.mem_cons_self
      · exact (ih h).imp (List.mem_cons_of_mem _) fun ⟨r', hr', hp⟩ ↦
          ⟨r', List.mem_cons_of_mem _ hr', hp⟩

theorem modifyRecord_of_not_mem {partitionId : ℕ} {f : Record → Record} {records : List Record}
    (h : partitionId ∉ records.map Record.partitionId) :
    modifyRecord partitionId f records = records := by
  induction records with
  | nil => rfl
  | cons r records ih =>
    rw [List.map_cons, List.mem_cons, not_or] at h
    rw [modifyRecord, if_neg (Ne.symm h.1), ih h.2]

/-- With one record a partition, an edit is pointwise. -/
theorem modifyRecord_eq_map {partitionId : ℕ} {f : Record → Record} {records : List Record}
    (hnodup : (records.map Record.partitionId).Nodup) :
    modifyRecord partitionId f records =
      records.map fun r ↦ if r.partitionId = partitionId then f r else r := by
  induction records with
  | nil => rfl
  | cons r records ih =>
    rw [List.map_cons, List.nodup_cons] at hnodup
    rw [modifyRecord, List.map_cons]
    split_ifs with hr
    · rw [← ih hnodup.2, modifyRecord_of_not_mem (hr ▸ hnodup.1)]
    · rw [ih hnodup.2]

/-! ## Operations -/

namespace KVCheckpointStore

/-- `initialize_kv_store_checkpoint`, the list it builds. -/
def initialRecords : List ℕ → StoreProg (List Record)
  | [] => return []
  | partitionId :: partitionIds => do
    let (etag, now) ← Prog.perform Request.stamp
    let records ← initialRecords partitionIds
    return {
      partitionId := partitionId
      ownerId := ""
      etag := etag
      lastModifiedTime := now
      offset := ""
      sequenceNumber := 0 } :: records

/-- `initialize_kv_store_checkpoint`. -/
def initializeKvStoreCheckpoint (partitionIds : List ℕ) : StoreProg Unit := do
  let records ← initialRecords partitionIds
  kvUpdate (.initial records) records

/-- `bool(document)`. -/
def truthyRecords : Option (List Record) → Bool
  | some records => !records.isEmpty
  | none => false

/-- `sys.exit(1)` on an exception. -/
def orExit {α : Type} (p : StoreProg α) : StoreProg α :=
  p.tryCatch fun e ↦ .throw (if e.isException then .systemExit 1 else e)

/-- `delete_checkpoint`. -/
def deleteCheckpoint : StoreProg Unit := do
  let document ← orExit kvGet
  if truthyRecords document then
    orExit do
      let answer ← Prog.perform Request.delete
      Prog.lift answer
  else return ()

/-- `__init__`. A document with a record for each partition is taken as it is. -/
def init (partitionIds : List ℕ) : StoreProg Unit := do
  let document ← kvGet
  if truthyRecords document then
    let records ← kvRecords
    if records.length ≠ partitionIds.length then
      deleteCheckpoint
      initializeKvStoreCheckpoint partitionIds
    else return ()
  else initializeKvStoreCheckpoint partitionIds

/-- `list_ownership`. -/
def listOwnership (hub : HubId) : StoreProg (List Ownership) := do
  let records ← kvRecords
  return records.map fun record ↦ {
    hub := hub
    partitionId := record.partitionId
    ownerId := record.ownerId
    etag := some record.etag
    lastModifiedTime := some record.lastModifiedTime }

/-- `etag_arr`: the etags of a document by partition. -/
def etagArr (records : List Record) : Except PyError (List String) :=
  go records (List.replicate records.length "")
where
  /-- The loop; an index out of range raises. -/
  go : List Record → List String → Except PyError (List String)
    | [], etags => .ok etags
    | record :: records, etags =>
      if record.partitionId < etags.length then
        go records (etags.set record.partitionId record.etag)
      else .error .indexError

/-- `etag_arr[partition_id]`. -/
def etagAt (etags : List String) (partitionId : ℕ) : Except PyError String :=
  match etags[partitionId]? with
  | some etag => .ok etag
  | none => .error .indexError

/-- The part of an iteration of `claim_ownership` that follows the comparison of etags: the document
is read again, edited and written. -/
def acquire (ownership : Ownership) (etag : String) : StoreProg Acquired := do
  let records ← kvRecords
  if ownership.partitionId ∈ records.map Record.partitionId then
    let (newEtag, now) ← Prog.perform Request.stamp
    let acquired : Acquired := ⟨ownership, newEtag, some now⟩
    kvUpdate (.claim acquired) (modifyRecord ownership.partitionId acquired.edit records)
    return acquired
  else
    -- no record to edit: the document is written as it was read
    let acquired : Acquired := ⟨ownership, etag, ownership.lastModifiedTime⟩
    kvUpdate (.claim acquired) records
    return acquired

/-- The loop of `claim_ownership`, given `etag_arr`. -/
def claimEach (etags : List String) : List Ownership → StoreProg (List Acquired)
  | [] => return []
  | ownership :: ownerships => do
    let etag ← Prog.lift (etagAt etags ownership.partitionId)
    if ownership.etag = some etag then
      let acquired ← acquire ownership etag
      let rest ← claimEach etags ownerships
      return acquired :: rest
    else claimEach etags ownerships

/-- `claim_ownership`. -/
def claimOwnership (ownerships : List Ownership) : StoreProg (List Acquired) := do
  let records ← kvRecords
  let etags ← Prog.lift (etagArr records)
  claimEach etags ownerships

/-- `list_checkpoints`. -/
def listCheckpoints (hub : HubId) : StoreProg (List Checkpoint) := do
  let records ← kvRecords
  return records.map fun record ↦ {
    hub := hub
    partitionId := record.partitionId
    offset := record.offset
    sequenceNumber := record.sequenceNumber }

/-- `update_checkpoint`. -/
def updateCheckpoint (checkpoint : Checkpoint) : StoreProg Unit := do
  let records ← kvRecords
  kvUpdate (.checkpoint checkpoint)
    (modifyRecord checkpoint.partitionId checkpoint.edit records)

end KVCheckpointStore

/-! ## The rules of its requests -/

section Rules

variable {G : Type*} {C : Contract G Request Answer} {g : G}

theorem wp_kvGet {Q : G → Except PyError (Option (List Record)) → Prop} :
    kvGet.wp C Q g ↔ C.pre g .get ∧ ∀ r g', C.post g .get r g' → Q g' r := by
  rw [kvGet, Prog.wp_bind, Prog.wp_perform]
  exact and_congr_right fun _ ↦ forall_congr' fun r ↦ forall_congr' fun g' ↦
    imp_congr_right fun _ ↦ Prog.wp_lift Q g' r

theorem wp_kvRecords {Q : G → Except PyError (List Record) → Prop} :
    kvRecords.wp C Q g ↔ C.pre g .get ∧ ∀ r g', C.post g .get r g' → match r with
      | .ok (some records) => Q g' (.ok records)
      | .ok none => Q g' (.error .typeError)
      | .error e => Q g' (.error e) := by
  rw [kvRecords, Prog.wp_bind, wp_kvGet]
  refine and_congr_right fun _ ↦ forall_congr' fun r ↦ forall_congr' fun g' ↦
    imp_congr_right fun _ ↦ ?_
  match r with
  | .ok (some records) => exact Iff.rfl
  | .ok none => exact Iff.rfl
  | .error e => exact Iff.rfl

theorem wp_kvUpdate {change : Change} {records : List Record}
    {Q : G → Except PyError Unit → Prop} :
    (kvUpdate change records).wp C Q g ↔ C.pre g (.update change records) ∧
      ∀ r g', C.post g (.update change records) r g' → Q g' r := by
  rw [kvUpdate, Prog.wp_bind, Prog.wp_perform]
  exact and_congr_right fun _ ↦ forall_congr' fun r ↦ forall_congr' fun g' ↦
    imp_congr_right fun _ ↦ Prog.wp_lift Q g' r

end Rules

end MsSecurity
