import MsSecurity.EventHub.CheckpointStore
import Mathlib.Order.Basic

/-!
# Properties of the stored progress

A call writes back the whole document as it read it some time before, so a write may bring back what
other partitions had long ago. A property of a partition's progress survives that if it stays true
once it is true: then every document that was ever read has it, and so has every document written.

`Progress` is such a property, over ghost states that only grow. The contract it gives has one rule
for each operation of the store, and says nothing of how the operations interleave or fail.
-/

namespace MsSecurity

/-- A partition, its offset and its sequence number. -/
def Record.progress (record : Record) : ℕ × String × ℤ :=
  (record.partitionId, record.offset, record.sequenceNumber)

def Checkpoint.progress (checkpoint : Checkpoint) : ℕ × String × ℤ :=
  (checkpoint.partitionId, checkpoint.offset, checkpoint.sequenceNumber)

theorem Checkpoint.eq_of_progress_eq {c d : Checkpoint} (hhub : c.hub = d.hub)
    (hprogress : c.progress = d.progress) : c = d := by
  cases c
  cases d
  obtain ⟨hpartition, hrest⟩ := Prod.mk.inj hprogress
  obtain ⟨hoffset, hsequence⟩ := Prod.mk.inj hrest
  rw [mk.injEq]
  exact ⟨hhub, hpartition, hoffset, hsequence⟩

theorem Checkpoint.progress_edit {c : Checkpoint} {record : Record}
    (h : record.partitionId = c.partitionId) : (c.edit record).progress = c.progress :=
  Prod.ext h rfl

/-- A property of the progress of a partition, given what has happened so far. -/
structure Progress (G : Type*) [Preorder G] where
  /-- This progress may be stored. -/
  Good : G → ℕ × String × ℤ → Prop
  /-- This checkpoint may be stored next. -/
  May : G → Checkpoint → Prop
  /-- A call of `_select_elements` has completed for this event. -/
  Processed : G → ℕ → HubEvent → Prop
  /-- The stored document is known to hold good progress only. -/
  Trusted : G → Prop
  /-- A document with as many records is known to. -/
  Fits : ℕ → Prop
  good_mono : ∀ {g g' x}, g ≤ g' → Good g x → Good g' x
  may_mono : ∀ {g g' c}, g ≤ g' → May g c → May g' c
  processed_mono : ∀ {g g' p e}, g ≤ g' → Processed g p e → Processed g' p e
  trusted_mono : ∀ {g g'}, g ≤ g' → Trusted g → Trusted g'
  good_initial : ∀ g p, Good g (p, "", 0)

namespace Progress

variable {G : Type*} [Preorder G] (P : Progress G)

/-- What a call may write, and what it learns from the answers. -/
def contract : Contract G Request Answer where
  pre g
    | .update change records => (P.Trusted g ∨ ∃ initial, change = .initial initial) ∧
        ∀ record ∈ records, P.Good g record.progress ∨
          ∃ c, change = .checkpoint c ∧ P.May g c ∧ record.progress = c.progress
    | .get => True
    | .delete => True
    | .stamp => True
    | .selectElements _ _ => True
  post g
    | .get => fun r g' ↦ g ≤ g' ∧ ∀ records, r = .ok (some records) →
        (P.Fits records.length → P.Trusted g') ∧
        (P.Trusted g' → ∀ record ∈ records, P.Good g' record.progress)
    | .update _ _ => fun r g' ↦ g ≤ g' ∧ (r = .ok () → P.Trusted g')
    | .selectElements p event => fun r g' ↦ g ≤ g' ∧ (r = .ok () → P.Processed g' p event)
    | .delete => fun _ g' ↦ g ≤ g'
    | .stamp => fun _ g' ↦ g ≤ g'

theorem contract_stable : P.contract.Stable where
  pre_mono := by
    intro g g' e hle h
    cases e with
    | update change records =>
      refine ⟨h.1.imp_left (P.trusted_mono hle), fun record hrecord ↦ ?_⟩
      refine (h.2 record hrecord).imp (P.good_mono hle) ?_
      rintro ⟨c, hc, hmay, heq⟩
      exact ⟨c, hc, P.may_mono hle hmay, heq⟩
    | _ => trivial
  post_mono := by
    intro g g' e r g'' hle h
    cases e with
    | get => exact ⟨hle.trans h.1, h.2⟩
    | update change records => exact ⟨hle.trans h.1, h.2⟩
    | selectElements p event => exact ⟨hle.trans h.1, h.2⟩
    | delete => exact hle.trans h
    | stamp => exact hle.trans h

variable {P} {g : G}

/-! ## Reading -/

theorem wp_kvRecords {Q : G → Except PyError (List Record) → Prop}
    (herror : ∀ g' e, g ≤ g' → Q g' (.error e))
    (hok : ∀ g' records, g ≤ g' → (P.Fits records.length → P.Trusted g') →
      (P.Trusted g' → ∀ record ∈ records, P.Good g' record.progress) → Q g' (.ok records)) :
    kvRecords.wp P.contract Q g := by
  rw [MsSecurity.wp_kvRecords]
  refine ⟨trivial, ?_⟩
  rintro r g' ⟨hle, hr⟩
  match r, hr with
  | .ok (some records), hr => exact hok g' records hle (hr records rfl).1 (hr records rfl).2
  | .ok none, _ => exact herror g' _ hle
  | .error e, _ => exact herror g' e hle

theorem wp_listOwnership {hub : HubId} {Q : G → Except PyError (List Ownership) → Prop}
    (hQ : ∀ g' x, g ≤ g' → Q g' x) :
    (KVCheckpointStore.listOwnership hub).wp P.contract Q g := by
  rw [KVCheckpointStore.listOwnership, Prog.wp_bind]
  exact wp_kvRecords (fun g' e hle ↦ hQ g' _ hle) fun g' records hle _ _ ↦ hQ g' _ hle

theorem wp_listCheckpoints {hub : HubId} {Q : G → Except PyError (List Checkpoint) → Prop}
    (htrusted : P.Trusted g)
    (hQ : ∀ g' x, (∀ checkpoints, x = .ok checkpoints →
      ∀ c ∈ checkpoints, c.hub = hub ∧ P.Good g' c.progress) → Q g' x) :
    (KVCheckpointStore.listCheckpoints hub).wp P.contract Q g := by
  rw [KVCheckpointStore.listCheckpoints, Prog.wp_bind]
  refine wp_kvRecords (fun g' e _ ↦ hQ g' _ fun _ h ↦ nomatch h) fun g' records hle _ hgood ↦ ?_
  refine hQ g' _ fun checkpoints h c hc ↦ ?_
  obtain rfl := Except.ok.inj h
  obtain ⟨record, hrecord, rfl⟩ := List.mem_map.mp hc
  exact ⟨rfl, hgood (P.trusted_mono hle htrusted) record hrecord⟩

/-! ## Writing -/

theorem wp_kvUpdate {change : Change} {records : List Record}
    {Q : G → Except PyError Unit → Prop}
    (htrusted : P.Trusted g ∨ ∃ initial, change = .initial initial)
    (hgood : ∀ record ∈ records, P.Good g record.progress ∨
      ∃ c, change = .checkpoint c ∧ P.May g c ∧ record.progress = c.progress)
    (hQ : ∀ g' x, g ≤ g' → (x = .ok () → P.Trusted g') → Q g' x) :
    (kvUpdate change records).wp P.contract Q g := by
  rw [MsSecurity.wp_kvUpdate]
  exact ⟨⟨htrusted, hgood⟩, fun r g' h ↦ hQ g' r h.1 h.2⟩

/-- A checkpoint that may be stored goes into a document that is good otherwise. -/
theorem wp_updateCheckpoint {c : Checkpoint} {Q : G → Except PyError Unit → Prop}
    (htrusted : P.Trusted g) (hmay : P.May g c) (hQ : ∀ g' x, g ≤ g' → Q g' x) :
    (KVCheckpointStore.updateCheckpoint c).wp P.contract Q g := by
  rw [KVCheckpointStore.updateCheckpoint, Prog.wp_bind]
  refine wp_kvRecords (fun g' e hle ↦ hQ g' _ hle) fun g' records hle _ hgood ↦ ?_
  have htrusted' := P.trusted_mono hle htrusted
  refine wp_kvUpdate (Or.inl htrusted') (fun record hrecord ↦ ?_) fun g'' x hle' _ ↦
    hQ g'' x (hle.trans hle')
  -- the edited record holds the checkpoint, and any other is as it was read
  rcases mem_modifyRecord hrecord with hrecord | ⟨r, -, hp, rfl⟩
  · exact Or.inl (hgood htrusted' record hrecord)
  · exact Or.inr ⟨c, rfl, P.may_mono hle hmay, Checkpoint.progress_edit hp⟩

theorem wp_acquire {ownership : Ownership} {etag : String} {Q : G → Except PyError Acquired → Prop}
    (htrusted : P.Trusted g) (hQ : ∀ g' x, g ≤ g' → Q g' x) :
    (KVCheckpointStore.acquire ownership etag).wp P.contract Q g := by
  rw [KVCheckpointStore.acquire, Prog.wp_bind]
  refine wp_kvRecords (fun g' e hle ↦ hQ g' _ hle) fun g' records hle _ hgood ↦ ?_
  have htrusted' := P.trusted_mono hle htrusted
  dsimp only
  split_ifs
  · rw [Prog.wp_bind, Prog.wp_perform]
    refine ⟨trivial, fun stamp g'' (hle' : g' ≤ g'') ↦ ?_⟩
    dsimp only
    rw [Prog.wp_bind]
    refine wp_kvUpdate (Or.inl (P.trusted_mono hle' htrusted')) (fun record hrecord ↦ ?_) ?_
    · rcases mem_modifyRecord hrecord with hrecord | ⟨r, hr, -, rfl⟩
      · exact Or.inl (P.good_mono hle' (hgood htrusted' record hrecord))
      · exact Or.inl (P.good_mono hle' (hgood htrusted' r hr))
    · intro g₃ x hle₃ _
      have hle := (hle.trans hle').trans hle₃
      cases x with
      | ok _ => exact hQ g₃ _ hle
      | error e => exact hQ g₃ _ hle
  · rw [Prog.wp_bind]
    refine wp_kvUpdate (Or.inl htrusted') (fun record hrecord ↦
      Or.inl (hgood htrusted' record hrecord)) fun g'' x hle' _ ↦ ?_
    cases x with
    | ok _ => exact hQ g'' _ (hle.trans hle')
    | error e => exact hQ g'' _ (hle.trans hle')

theorem wp_claimEach {etags : List String} {ownerships : List Ownership}
    {Q : G → Except PyError (List Acquired) → Prop} (htrusted : P.Trusted g)
    (hQ : ∀ g' x, g ≤ g' → Q g' x) :
    (KVCheckpointStore.claimEach etags ownerships).wp P.contract Q g := by
  induction ownerships generalizing g Q with
  | nil => exact hQ g _ le_rfl
  | cons ownership ownerships ih =>
    rw [KVCheckpointStore.claimEach, Prog.wp_bind, Prog.wp_lift]
    cases KVCheckpointStore.etagAt etags ownership.partitionId with
    | error e => exact hQ g _ le_rfl
    | ok etag =>
      dsimp only
      split_ifs
      · rw [Prog.wp_bind]
        refine wp_acquire htrusted fun g' x hle ↦ ?_
        cases x with
        | error e => exact hQ g' _ hle
        | ok acquired =>
          dsimp only
          rw [Prog.wp_bind]
          refine ih (P.trusted_mono hle htrusted) fun g'' x hle' ↦ ?_
          cases x with
          | error e => exact hQ g'' _ (hle.trans hle')
          | ok rest => exact hQ g'' _ (hle.trans hle')
      · exact ih htrusted hQ

theorem wp_claimOwnership {ownerships : List Ownership}
    {Q : G → Except PyError (List Acquired) → Prop} (htrusted : P.Trusted g)
    (hQ : ∀ g' x, g ≤ g' → Q g' x) :
    (KVCheckpointStore.claimOwnership ownerships).wp P.contract Q g := by
  rw [KVCheckpointStore.claimOwnership, Prog.wp_bind]
  refine wp_kvRecords (fun g' e hle ↦ hQ g' _ hle) fun g' records hle _ _ ↦ ?_
  dsimp only
  rw [Prog.wp_bind, Prog.wp_lift]
  cases KVCheckpointStore.etagArr records with
  | error e => exact hQ g' _ hle
  | ok etags =>
    exact wp_claimEach (P.trusted_mono hle htrusted) fun g'' x hle' ↦ hQ g'' x (hle.trans hle')

/-! ## Construction -/

theorem wp_initialRecords {partitionIds : List ℕ} {Q : G → Except PyError (List Record) → Prop}
    (hQ : ∀ g' records, (∀ record ∈ records, ∃ p, record.progress = (p, "", 0)) →
      Q g' (.ok records)) :
    (KVCheckpointStore.initialRecords partitionIds).wp P.contract Q g := by
  induction partitionIds generalizing g Q with
  | nil => exact hQ g [] fun _ h ↦ absurd h List.not_mem_nil
  | cons p partitionIds ih =>
    rw [KVCheckpointStore.initialRecords, Prog.wp_bind, Prog.wp_perform]
    refine ⟨trivial, fun stamp g' _ ↦ ?_⟩
    dsimp only
    rw [Prog.wp_bind]
    refine ih fun g'' records hrecords ↦ hQ g'' _ ?_
    intro record hrecord
    rcases List.mem_cons.mp hrecord with rfl | hrecord
    · exact ⟨p, rfl⟩
    · exact hrecords record hrecord

theorem wp_initializeKvStoreCheckpoint {partitionIds : List ℕ}
    {Q : G → Except PyError Unit → Prop}
    (hQ : ∀ g' x, (x = .ok () → P.Trusted g') → Q g' x) :
    (KVCheckpointStore.initializeKvStoreCheckpoint partitionIds).wp P.contract Q g := by
  rw [KVCheckpointStore.initializeKvStoreCheckpoint, Prog.wp_bind]
  refine wp_initialRecords fun g' records hrecords ↦ ?_
  refine wp_kvUpdate (Or.inr ⟨records, rfl⟩) (fun record hrecord ↦ Or.inl ?_) fun g'' x _ hx ↦
    hQ g'' x hx
  obtain ⟨p, hp⟩ := hrecords record hrecord
  rw [hp]
  exact P.good_initial g' p

theorem wp_orExit {α : Type} {p : StoreProg α} {Q : G → Except PyError α → Prop}
    (h : p.wp P.contract (fun g' x ↦ Q g' (match x with
      | .ok a => .ok a
      | .error e => .error (if e.isException then .systemExit 1 else e))) g) :
    (KVCheckpointStore.orExit p).wp P.contract Q g := by
  rw [KVCheckpointStore.orExit, Prog.wp_tryCatch]
  refine Prog.wp_mono (fun g' x hx ↦ ?_) h
  cases x with
  | ok a => exact hx
  | error e => exact hx

theorem wp_deleteCheckpoint {Q : G → Except PyError Unit → Prop} (hQ : ∀ g' x, Q g' x) :
    KVCheckpointStore.deleteCheckpoint.wp P.contract Q g := by
  rw [KVCheckpointStore.deleteCheckpoint, Prog.wp_bind]
  refine wp_orExit (wp_kvGet.mpr ⟨trivial, fun r g' _ ↦ ?_⟩)
  cases r with
  | error e => exact hQ g' _
  | ok document =>
    dsimp only
    split_ifs
    · refine wp_orExit ?_
      rw [Prog.wp_bind, Prog.wp_perform]
      refine ⟨trivial, fun r g'' _ ↦ ?_⟩
      exact (Prog.wp_lift _ g'' r).mpr (hQ g'' _)
    · exact hQ g' _

/-- A store that was constructed holds good progress only: its document was new, or had the right
number of records. -/
theorem wp_init {partitionIds : List ℕ} {Q : G → Except PyError Unit → Prop}
    (hfits : P.Fits partitionIds.length) (hQ : ∀ g' x, (x = .ok () → P.Trusted g') → Q g' x) :
    (KVCheckpointStore.init partitionIds).wp P.contract Q g := by
  rw [KVCheckpointStore.init, Prog.wp_bind]
  refine wp_kvGet.mpr ⟨trivial, fun r g' _ ↦ ?_⟩
  cases r with
  | error e => exact hQ g' _ fun h ↦ nomatch h
  | ok document =>
    dsimp only
    split_ifs
    · rw [Prog.wp_bind]
      refine wp_kvRecords (fun g'' e _ ↦ hQ g'' _ fun h ↦ nomatch h)
        fun g'' records _ htrusted _ ↦ ?_
      dsimp only
      split_ifs with hlength
      · rw [Prog.wp_bind]
        refine wp_deleteCheckpoint fun g₃ x ↦ ?_
        cases x with
        | error e => exact hQ g₃ _ fun h ↦ nomatch h
        | ok _ => exact wp_initializeKvStoreCheckpoint hQ
      · -- the document is taken as it is, and its length says it can be
        rw [not_not] at hlength
        exact hQ g'' _ fun _ ↦ htrusted (hlength ▸ hfits)
    · exact wp_initializeKvStoreCheckpoint hQ

end Progress

end MsSecurity
