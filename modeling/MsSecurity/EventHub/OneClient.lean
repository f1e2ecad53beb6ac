import MsSecurity.EventHub.PartitionStore
import MsSecurity.Python.Effect
import MsSecurity.Transition.Execution

/-!
# The checkpoint store of one client

Used by one client, `KVCheckpointStore` is a store of partitions. Each of its operations is a step
of that store, with the same result, whatever requests fail along the way
(`simulates_partitionStore`); if none fails, each returns what that store returns.
-/

namespace MsSecurity

/-! ## The document of one client -/

/-- The answers of the KV store, by number. Every request may fail, and one that changes the
document may have taken effect nevertheless. -/
structure KVServer where
  get : ℕ → Option PyError
  update : ℕ → RemoteChange
  delete : ℕ → RemoteChange
  uuid : ℕ → String
  time : ℕ → ℤ
  uuid_injective : Function.Injective uuid

/-- The document, and how many answers have been given. -/
structure KVWorld where
  document : Option (List Record)
  clock : ℕ

/-- How a request ends. -/
def answerOf (fault : Option PyError) : Except PyError Unit :=
  match fault with
  | none => .ok ()
  | some e => .error e

/-- Some read or write of the document fails. -/
def KVServer.MayFail (server : KVServer) : Prop :=
  ∃ k, (server.get k).isSome ∨ (server.update k).fault.isSome

/-- How the requests of the store are answered. -/
def KVServer.serve (server : KVServer) : Serves Request Answer KVWorld
  | .get, w => (match server.get w.clock with
      | none => .ok w.document
      | some e => .error e, ⟨w.document, w.clock + 1⟩)
  | .update _ records, w => (answerOf (server.update w.clock).fault,
      ⟨(server.update w.clock).apply (fun _ ↦ some records) w.document, w.clock + 1⟩)
  | .delete, w => (answerOf (server.delete w.clock).fault,
      ⟨(server.delete w.clock).apply (fun _ ↦ none) w.document, w.clock + 1⟩)
  | .stamp, w => ((server.uuid w.clock, server.time w.clock), ⟨w.document, w.clock + 1⟩)
  | .selectElements _ _, w => (.ok (), ⟨w.document, w.clock + 1⟩)

/-- The program of an operation. -/
def StoreOp.prog : (op : StoreOp) → StoreProg op.Result
  | .construct partitionIds => KVCheckpointStore.init partitionIds
  | .claimOwnership ownerships => KVCheckpointStore.claimOwnership ownerships
  | .updateCheckpoint checkpoint => KVCheckpointStore.updateCheckpoint checkpoint
  | .listOwnership hub => KVCheckpointStore.listOwnership hub
  | .listCheckpoints hub => KVCheckpointStore.listCheckpoints hub

/-- The steps of the code: the program of the operation, run by itself. -/
def KVServer.Step (server : KVServer) : Steps KVWorld StoreOp fun op ↦ Except PyError op.Result :=
  fun w op result next ↦
    Ends (op.prog.exec server.serve) w fun r t ↦ r = result ∧ t = next

/-- The record of a partition. -/
def PartitionState.record (partitionId : ℕ) (state : PartitionState) : Record where
  partitionId := partitionId
  ownerId := state.ownerId
  etag := state.etag
  lastModifiedTime := state.lastModifiedTime
  offset := state.offset
  sequenceNumber := state.sequenceNumber

/-- One record for each partition, in the order of the store. -/
def PartitionStore.records {n : ℕ} (store : PartitionStore n) : List Record :=
  store.order.map fun i ↦ (store.state i).record i

/-- The document is the store's, and its etags have been issued. -/
def KVServer.Represents (server : KVServer) {n : ℕ} (w : KVWorld) :
    Option (PartitionStore n) → Prop
  | none => w.document = none
  | some store => w.document = some store.records ∧
      ∀ i ∈ store.order, ∃ k < w.clock, (store.state i).etag = server.uuid k

/-! ## Editing the document -/

namespace PartitionStore

variable {n : ℕ} {store : PartitionStore n} {a : Acquired} {acquired : List Acquired} {i : ℕ}

theorem map_partitionId_records : store.records.map Record.partitionId = store.order := by
  rw [records, List.map_map]
  exact List.map_id _

theorem nodup_records : (store.records.map Record.partitionId).Nodup := by
  rw [map_partitionId_records]
  exact nodup_order

theorem length_records : store.records.length = n := by
  rw [records, List.length_map, store.perm.length_eq, List.length_range]

theorem modifyRecord_claim (a : Acquired) :
    modifyRecord a.claimed.partitionId a.edit store.records = (store.claim [a]).records := by
  rw [modifyRecord_eq_map nodup_records, records, List.map_map]
  refine List.map_congr_left fun i _ ↦ ?_
  rw [state_claim_singleton, Function.comp_apply]
  change (if i = a.claimed.partitionId then _ else _) = _
  split_ifs <;> rfl

theorem modifyRecord_progress (checkpoint : Checkpoint) :
    modifyRecord checkpoint.partitionId checkpoint.edit store.records =
      (store.progress checkpoint).records := by
  rw [modifyRecord_eq_map nodup_records, records, List.map_map]
  refine List.map_congr_left fun i _ ↦ ?_
  rw [progress, Function.comp_apply]
  change (if i = checkpoint.partitionId then _ else _) =
    PartitionState.record i (if _ then _ else _)
  split_ifs <;> rfl

end PartitionStore

/-! ## The etags of a document -/

/-- `etag_arr` holds the etag of each record at its partition, and elsewhere what was there. -/
theorem getElem?_of_etagArr_go {records : List Record} {etags : List String}
    (hnodup : (records.map Record.partitionId).Nodup)
    (hlt : ∀ record ∈ records, record.partitionId < etags.length) :
    ∃ etags', KVCheckpointStore.etagArr.go records etags = .ok etags' ∧
      (∀ record ∈ records, etags'[record.partitionId]? = some record.etag) ∧
      ∀ i, i ∉ records.map Record.partitionId → etags'[i]? = etags[i]? := by
  induction records generalizing etags with
  | nil => exact ⟨etags, rfl, fun _ h ↦ absurd h List.not_mem_nil, fun _ _ ↦ rfl⟩
  | cons record records ih =>
    rw [List.map_cons, List.nodup_cons] at hnodup
    rw [List.forall_mem_cons] at hlt
    obtain ⟨etags', hgo, hmem, hnot⟩ := @ih (etags.set record.partitionId record.etag)
      hnodup.2 fun r hr ↦ by
        rw [List.length_set]
        exact hlt.2 r hr
    refine ⟨etags', ?_, List.forall_mem_cons.mpr ⟨?_, hmem⟩, fun i hi ↦ ?_⟩
    · rw [KVCheckpointStore.etagArr.go, if_pos hlt.1, hgo]
    · rw [hnot _ hnodup.1, List.getElem?_set_self hlt.1]
    · rw [List.map_cons, List.mem_cons, not_or] at hi
      rw [hnot i hi.2, List.getElem?_set_ne (Ne.symm hi.1)]

theorem etagAt_of_etagArr {n : ℕ} (store : PartitionStore n) :
    ∃ etags, KVCheckpointStore.etagArr store.records = .ok etags ∧
      ∀ i < n, KVCheckpointStore.etagAt etags i = .ok (store.state i).etag := by
  have hlt : ∀ record ∈ store.records,
      record.partitionId < (List.replicate store.records.length "").length := by
    intro record hrecord
    obtain ⟨i, hi, rfl⟩ := List.mem_map.mp hrecord
    rw [List.length_replicate, PartitionStore.length_records]
    exact PartitionStore.mem_order_iff.mp hi
  obtain ⟨etags, hgo, hmem, -⟩ := getElem?_of_etagArr_go PartitionStore.nodup_records hlt
  refine ⟨etags, hgo, fun i hi ↦ ?_⟩
  have hetag := hmem _ (List.mem_map_of_mem (PartitionStore.mem_order_iff.mpr hi))
  rw [KVCheckpointStore.etagAt]
  change etags[i]? = some (store.state i).etag at hetag
  rw [hetag]

/-! ## What the requests and the operations do -/

section Programs

variable {server : KVServer} {n : ℕ} {w : KVWorld} {store : PartitionStore n}

/-- The document is as it was, at a later time. -/
structure KVWorld.Kept (w t : KVWorld) : Prop where
  document : t.document = w.document
  clock : w.clock ≤ t.clock

theorem KVWorld.Kept.refl (w : KVWorld) : w.Kept w := ⟨rfl, le_rfl⟩

theorem KVWorld.Kept.trans {w t u : KVWorld} (h : w.Kept t) (h' : t.Kept u) : w.Kept u :=
  ⟨h'.document.trans h.document, h.clock.trans h'.clock⟩

theorem KVWorld.Kept.represents {t : KVWorld} {stored : Option (PartitionStore n)}
    (h : w.Kept t) (hw : server.Represents w stored) : server.Represents t stored := by
  cases stored with
  | none => exact h.document.trans hw
  | some store =>
    refine ⟨h.document.trans hw.1, fun i hi ↦ ?_⟩
    obtain ⟨k, hk, hetag⟩ := hw.2 i hi
    exact ⟨k, hk.trans_le h.clock, hetag⟩

theorem ends_kvGet : Ends (kvGet.exec server.serve) w fun r t ↦
    w.Kept t ∧ Returned server.MayFail w.document r := by
  rw [kvGet, Prog.ends_exec_bind, Prog.ends_exec_perform]
  dsimp only
  rw [Prog.ends_exec_lift]
  refine ⟨⟨rfl, Nat.le_succ _⟩, ?_⟩
  rw [KVServer.serve]
  dsimp only
  split
  · exact Or.inl rfl
  · rename_i e hget
    exact Or.inr ⟨⟨w.clock, Or.inl (by rw [hget]; rfl)⟩, e, rfl⟩

theorem ends_kvGet_bind {α : Type} {f : Option (List Record) → StoreProg α}
    {Q : Except PyError α → KVWorld → Prop}
    (hok : ∀ t, w.Kept t → Ends ((f w.document).exec server.serve) t Q)
    (herror : ∀ e t, w.Kept t → server.MayFail → Q (.error e) t) :
    Ends (Prog.exec server.serve (kvGet >>= f)) w Q := by
  refine Prog.ends_exec_bind_of ends_kvGet ?_ ?_
  · rintro document t ⟨hkept, hdocument | ⟨-, e, he⟩⟩
    · obtain rfl := Except.ok.inj hdocument
      exact hok t hkept
    · exact absurd he.symm error_ne_ok
  · rintro e t ⟨hkept, h | ⟨hfail, -⟩⟩
    · exact absurd h error_ne_ok
    · exact herror e t hkept hfail

theorem ends_kvRecords_bind {α : Type} {records : List Record} {f : List Record → StoreProg α}
    {Q : Except PyError α → KVWorld → Prop} (hw : w.document = some records)
    (hok : ∀ t, w.Kept t → Ends ((f records).exec server.serve) t Q)
    (herror : ∀ e t, w.Kept t → server.MayFail → Q (.error e) t) :
    Ends (Prog.exec server.serve (kvRecords >>= f)) w Q := by
  rw [Prog.ends_exec_bind]
  refine ends_kvGet_bind (fun t hkept ↦ ?_) fun e t hkept hfail ↦ herror e t hkept hfail
  rw [hw]
  exact hok t hkept

theorem ends_kvRecords_bind_of_none {α : Type} {f : List Record → StoreProg α}
    (hw : w.document = none) : Ends (Prog.exec server.serve (kvRecords >>= f)) w fun r t ↦
      t.document = none ∧ ∃ e, r = .error e := by
  rw [Prog.ends_exec_bind]
  refine ends_kvGet_bind (fun t hkept ↦ ?_) fun e t hkept _ ↦ ⟨hkept.document.trans hw, e, rfl⟩
  rw [hw]
  exact ⟨hkept.document.trans hw, .typeError, rfl⟩

/-- A write that returns has taken effect, and one that raises may have. -/
theorem ends_kvUpdate {change : Change} {records : List Record} :
    Ends ((kvUpdate change records).exec server.serve) w fun r t ↦ w.clock < t.clock ∧
      (t.document = some records ∧ Returned server.MayFail () r ∨
        t.document = w.document ∧ Failed server.MayFail r) := by
  rw [kvUpdate, Prog.ends_exec_bind, Prog.ends_exec_perform]
  dsimp only
  rw [Prog.ends_exec_lift]
  refine ⟨Nat.lt_succ_self _, ?_⟩
  rw [KVServer.serve]
  dsimp only
  have hfailed : ∀ e, (server.update w.clock).fault = some e →
      Failed server.MayFail (answerOf (server.update w.clock).fault) := fun e hfault ↦
    ⟨⟨w.clock, Or.inr (by rw [hfault]; rfl)⟩, e, by rw [hfault]; rfl⟩
  rcases (server.update w.clock).apply_cases (fun _ ↦ some records) w.document with
    happly | ⟨happly, e, hfault⟩
  · refine Or.inl ⟨happly, ?_⟩
    cases hfault : (server.update w.clock).fault with
    | none => exact Or.inl rfl
    | some e => exact Or.inr (hfault ▸ hfailed e hfault)
  · exact Or.inr ⟨happly, hfailed e hfault⟩

theorem KVServer.Represents.claim {t : KVWorld} {a : Acquired} {k : ℕ}
    (hw : server.Represents w (some store)) (hclock : w.clock ≤ t.clock) (hk : k < t.clock)
    (hetag : a.etag = server.uuid k) (hdocument : t.document = some (store.claim [a]).records) :
    server.Represents t (some (store.claim [a])) := by
  refine ⟨hdocument, fun i hi ↦ ?_⟩
  rw [PartitionStore.state_claim_singleton]
  split_ifs
  · exact ⟨k, hk, hetag⟩
  · obtain ⟨k', hk', hetag'⟩ := hw.2 i hi
    exact ⟨k', hk'.trans_le hclock, hetag'⟩

/-- What `claim_ownership` wrote into the object that was handed in, with an etag issued from the
time `c` on and before the time `d`. -/
structure KVServer.Issued (server : KVServer) (c d : ℕ) (a : Acquired) : Prop where
  etag : ∃ k, c ≤ k ∧ k < d ∧ a.etag = server.uuid k
  lastModifiedTime : a.lastModifiedTime.isSome

theorem KVServer.Issued.mono {c c' d d' : ℕ} {a : Acquired} (h : server.Issued c d a)
    (hc : c' ≤ c) (hd : d ≤ d') : server.Issued c' d' a := by
  obtain ⟨k, hck, hkd, hetag⟩ := h.etag
  exact ⟨⟨k, hc.trans hck, hkd.trans_le hd, hetag⟩, h.lastModifiedTime⟩

theorem KVServer.Issued.etag_ne {c d d' : ℕ} {a b : Acquired} (ha : server.Issued c d a)
    (hb : server.Issued d d' b) : a.etag ≠ b.etag := by
  obtain ⟨k, -, hk, hetag⟩ := ha.etag
  obtain ⟨k', hk', -, hetag'⟩ := hb.etag
  intro heq
  have hsame : k = k' := server.uuid_injective (hetag.symm.trans (heq.trans hetag'))
  omega

theorem KVCheckpointStore.ends_acquire {ownership : Ownership} {etag : String}
    (hw : server.Represents w (some store)) (hknown : ownership.partitionId < n) :
    Ends ((KVCheckpointStore.acquire ownership etag).exec server.serve) w fun r t ↦
      w.clock ≤ t.clock ∧ ((∃ a, a.claimed = ownership ∧ server.Issued w.clock t.clock a ∧
          server.Represents t (some (store.claim [a])) ∧ Returned server.MayFail a r) ∨
        server.Represents t (some store) ∧ Failed server.MayFail r) := by
  refine ends_kvRecords_bind hw.1 (fun t₁ hkept ↦ ?_) fun e t hkept hfail ↦
    ⟨hkept.clock, Or.inr ⟨hkept.represents hw, hfail, e, rfl⟩⟩
  have hmem : ownership.partitionId ∈ store.records.map Record.partitionId := by
    rw [PartitionStore.map_partitionId_records]
    exact PartitionStore.mem_order_iff.mpr hknown
  rw [if_pos hmem, Prog.ends_exec_bind, Prog.ends_exec_perform]
  dsimp only
  set a : Acquired := ⟨ownership, server.uuid t₁.clock, some (server.time t₁.clock)⟩
  -- the write either has taken effect, whether it raises or not, or raises
  have hwrite : Ends ((kvUpdate (.claim a)
      (modifyRecord ownership.partitionId a.edit store.records)).exec server.serve)
      ⟨t₁.document, t₁.clock + 1⟩ fun r t ↦ w.clock ≤ t.clock ∧
        (server.Issued w.clock t.clock a ∧ server.Represents t (some (store.claim [a])) ∧
            Returned server.MayFail () r ∨
          server.Represents t (some store) ∧ Failed server.MayFail r) := by
    refine ends_kvUpdate.mono fun r t ⟨hclock, hdocument⟩ ↦ ?_
    have hissued : t₁.clock < t.clock := Nat.lt_of_succ_lt hclock
    have hlater : w.clock ≤ t.clock := hkept.clock.trans hissued.le
    refine ⟨hlater, hdocument.imp (fun ⟨h, hr⟩ ↦ ?_) fun ⟨h, hr⟩ ↦ ⟨?_, hr⟩⟩
    · refine ⟨⟨⟨t₁.clock, hkept.clock, hissued, rfl⟩, rfl⟩, ?_, hr⟩
      exact hw.claim hlater hissued rfl (by rw [h, ← PartitionStore.modifyRecord_claim])
    · exact (KVWorld.Kept.mk (h.trans hkept.document) hlater).represents hw
  refine Prog.ends_exec_bind_of hwrite ?_ ?_
  · rintro _ t ⟨hclock, ⟨hissued, ht, -⟩ | ⟨-, -, e, he⟩⟩
    · exact ⟨hclock, Or.inl ⟨a, rfl, hissued, ht, Or.inl rfl⟩⟩
    · exact absurd he.symm error_ne_ok
  · rintro e t ⟨hclock, ⟨hissued, ht, hr⟩ | ⟨ht, hfail, -⟩⟩
    · have hfail := (hr.resolve_left error_ne_ok).1
      exact ⟨hclock, Or.inl ⟨a, rfl, hissued, ht, Or.inr ⟨hfail, e, rfl⟩⟩⟩
    · exact ⟨hclock, Or.inr ⟨ht, hfail, e, rfl⟩⟩

/-- The state reached when the ownerships of `acquired`, the first of those wanted, are claimed
since the time `c`. -/
structure KVServer.Claimed (server : KVServer) (store : PartitionStore n) (c : ℕ)
    (wanted : List Ownership) (acquired : List Acquired) (t : KVWorld) : Prop where
  represents : server.Represents t (some (store.claim acquired))
  clock : c ≤ t.clock
  issued : ∀ a ∈ acquired, server.Issued c t.clock a
  nodup : (acquired.map Acquired.etag).Nodup
  claimed : acquired.map Acquired.claimed <+: wanted

theorem KVServer.Claimed.nil {c : ℕ} {wanted : List Ownership} {t : KVWorld}
    (ht : server.Represents t (some store)) (hclock : c ≤ t.clock) :
    server.Claimed store c wanted [] t :=
  ⟨ht, hclock, fun _ h ↦ absurd h List.not_mem_nil, List.nodup_nil, List.nil_prefix⟩

theorem KVServer.Claimed.cons {a : Acquired} {c c' : ℕ} {wanted : List Ownership}
    {acquired : List Acquired} {t : KVWorld}
    (h : server.Claimed (store.claim [a]) c' wanted acquired t) (hclock : c ≤ c')
    (ha : server.Issued c c' a)
    (hnot : a.claimed.partitionId ∉ wanted.map Ownership.partitionId) :
    server.Claimed store c (a.claimed :: wanted) (a :: acquired) t := by
  have hmem : a.claimed.partitionId ∉ acquired.map fun b ↦ b.claimed.partitionId := by
    intro hmem
    obtain ⟨b, hb, hpartition⟩ := List.mem_map.mp hmem
    exact hnot (List.mem_map.mpr
      ⟨b.claimed, h.claimed.subset (List.mem_map_of_mem hb), hpartition⟩)
  have hetag : a.etag ∉ acquired.map Acquired.etag := by
    intro hetag
    obtain ⟨b, hb, heq⟩ := List.mem_map.mp hetag
    exact ha.etag_ne (h.issued b hb) heq.symm
  refine ⟨?_, hclock.trans h.clock,
    List.forall_mem_cons.mpr ⟨ha.mono le_rfl h.clock, fun b hb ↦ ?_⟩,
    List.nodup_cons.mpr ⟨hetag, h.nodup⟩, List.cons_prefix_cons.mpr ⟨rfl, h.claimed⟩⟩
  · rw [← PartitionStore.claim_cons hmem]
    exact h.represents
  · exact (h.issued b hb).mono hclock le_rfl

/-- The loop claims the ownerships whose etag is stored, up to where it raises. -/
theorem KVCheckpointStore.ends_claimEach {etags : List String} {ownerships : List Ownership}
    (hw : server.Represents w (some store))
    (hnodup : (ownerships.map Ownership.partitionId).Nodup)
    (hknown : ∀ ownership ∈ ownerships, ownership.partitionId < n)
    (hetags : ∀ ownership ∈ ownerships, KVCheckpointStore.etagAt etags ownership.partitionId =
      .ok (store.state ownership.partitionId).etag) :
    Ends ((KVCheckpointStore.claimEach etags ownerships).exec server.serve) w fun r t ↦
      ∃ acquired, server.Claimed store w.clock (store.wanted ownerships) acquired t ∧
        (r = .ok acquired ∧ acquired.map Acquired.claimed = store.wanted ownerships ∨
          Failed server.MayFail r) := by
  induction ownerships generalizing w store with
  | nil => exact ⟨[], .nil hw le_rfl, Or.inl ⟨rfl, rfl⟩⟩
  | cons ownership ownerships ih =>
    rw [List.map_cons, List.nodup_cons] at hnodup
    rw [List.forall_mem_cons] at hknown hetags
    rw [KVCheckpointStore.claimEach, Prog.ends_exec_bind, Prog.ends_exec_lift, hetags.1]
    dsimp only
    have hwanted : store.wanted (ownership :: ownerships) =
        if ownership.etag = some (store.state ownership.partitionId).etag then
          ownership :: store.wanted ownerships
        else store.wanted ownerships := by
      rw [PartitionStore.wanted, List.filter_cons, PartitionStore.wanted]
      simp only [decide_eq_true_eq]
    split_ifs at hwanted ⊢ with hetag
    · have hnot : ownership.partitionId ∉
          (store.wanted ownerships).map Ownership.partitionId := fun hmem ↦
        hnodup.1 (List.map_subset _ List.filter_sublist.subset hmem)
      rw [hwanted]
      refine Prog.ends_exec_bind_of (KVCheckpointStore.ends_acquire hw hknown.1) ?_ ?_
      · intro acquired t₁ ⟨hclock, ht₁⟩
        obtain ⟨a, rfl, hissued, ht₁, hreturned⟩ := ht₁.resolve_right fun ⟨_, _, e, he⟩ ↦
          error_ne_ok he.symm
        obtain rfl := Except.ok.inj (hreturned.resolve_right fun ⟨_, e, he⟩ ↦ error_ne_ok he.symm)
        -- the other partitions are as they were, so they are compared with what is stored
        have hother : ∀ other ∈ ownerships, (store.claim [acquired]).state other.partitionId =
            store.state other.partitionId := by
          intro other hother
          refine PartitionStore.state_claim_of_not_mem fun hmem ↦ hnodup.1 ?_
          exact List.mem_map.mpr ⟨other, hother, List.mem_singleton.mp hmem⟩
        have hsame : (store.claim [acquired]).wanted ownerships = store.wanted ownerships :=
          List.filter_congr fun other hmem ↦ by rw [hother other hmem]
        have hrest := ih ht₁ hnodup.2 hknown.2 fun other hmem ↦ by
          rw [hother other hmem]
          exact hetags.2 other hmem
        rw [hsame] at hrest
        refine Prog.ends_exec_bind_of hrest ?_ ?_
        · rintro rest t ⟨claimed, hclaimed, ⟨hreturned, hall⟩ | ⟨-, e, he⟩⟩
          · obtain rfl := Except.ok.inj hreturned
            refine ⟨acquired :: rest, hclaimed.cons hclock hissued hnot, Or.inl ⟨rfl, ?_⟩⟩
            rw [List.map_cons, hall]
          · exact absurd he.symm error_ne_ok
        · rintro e t ⟨claimed, hclaimed, ⟨h, -⟩ | ⟨hfail, -⟩⟩
          · exact absurd h error_ne_ok
          · exact ⟨acquired :: claimed, hclaimed.cons hclock hissued hnot,
              Or.inr ⟨hfail, e, rfl⟩⟩
      · rintro e t ⟨hclock, ⟨a, rfl, hissued, ht, hr⟩ | ⟨ht, hfail, -⟩⟩
        · have hfail := (hr.resolve_left error_ne_ok).1
          have hclaimed := (KVServer.Claimed.nil ht le_rfl).cons hclock hissued hnot
          exact ⟨[a], hclaimed, Or.inr ⟨hfail, e, rfl⟩⟩
        · exact ⟨[], .nil ht hclock, Or.inr ⟨hfail, e, rfl⟩⟩
    · rw [hwanted]
      exact ih hw hnodup.2 hknown.2 hetags.2

theorem KVCheckpointStore.ends_claimOwnership {ownerships : List Ownership}
    (hw : server.Represents w (some store))
    (hnodup : (ownerships.map Ownership.partitionId).Nodup)
    (hknown : ∀ ownership ∈ ownerships, ownership.partitionId < n) :
    Ends ((KVCheckpointStore.claimOwnership ownerships).exec server.serve) w fun r t ↦
      ∃ acquired, server.Claimed store w.clock (store.wanted ownerships) acquired t ∧
        (r = .ok acquired ∧ acquired.map Acquired.claimed = store.wanted ownerships ∨
          Failed server.MayFail r) := by
  refine ends_kvRecords_bind hw.1 (fun t₁ hkept ↦ ?_) fun e t hkept hfail ↦
    ⟨[], .nil (hkept.represents hw) hkept.clock, Or.inr ⟨hfail, e, rfl⟩⟩
  obtain ⟨etags, hetags, hat⟩ := etagAt_of_etagArr store
  rw [Prog.ends_exec_bind, Prog.ends_exec_lift, hetags]
  refine (ends_claimEach (hkept.represents hw) hnodup hknown fun ownership hmem ↦
    hat _ (hknown ownership hmem)).mono ?_
  rintro r t ⟨acquired, hclaimed, hreturned⟩
  refine ⟨acquired, ⟨hclaimed.represents, hkept.clock.trans hclaimed.clock, fun a ha ↦ ?_,
    hclaimed.nodup, hclaimed.claimed⟩, hreturned⟩
  exact (hclaimed.issued a ha).mono hkept.clock le_rfl

theorem KVCheckpointStore.ends_updateCheckpoint {checkpoint : Checkpoint}
    (hw : server.Represents w (some store)) :
    Ends ((KVCheckpointStore.updateCheckpoint checkpoint).exec server.serve) w fun r t ↦
      server.Represents t (some (store.progress checkpoint)) ∧ Returned server.MayFail () r ∨
        server.Represents t (some store) ∧ Failed server.MayFail r := by
  refine ends_kvRecords_bind hw.1 (fun t₁ hkept ↦ ?_) fun e t hkept hfail ↦
    Or.inr ⟨hkept.represents hw, hfail, e, rfl⟩
  refine ends_kvUpdate.mono fun r t ⟨hclock, hdocument⟩ ↦ ?_
  have hlater := hkept.clock.trans hclock.le
  refine hdocument.imp (fun ⟨h, hr⟩ ↦ ⟨⟨?_, fun i hi ↦ ?_⟩, hr⟩) fun ⟨h, hr⟩ ↦ ⟨?_, hr⟩
  · rw [h, ← PartitionStore.modifyRecord_progress]
  · obtain ⟨k, hk, hetag⟩ := hw.2 i hi
    refine ⟨k, hk.trans_le hlater, ?_⟩
    rw [PartitionStore.progress]
    dsimp only
    split_ifs <;> exact hetag
  · exact (KVWorld.Kept.mk (h.trans hkept.document) hlater).represents hw

theorem KVCheckpointStore.ends_initialRecords {partitionIds : List ℕ}
    (hnodup : partitionIds.Nodup) :
    Ends ((KVCheckpointStore.initialRecords partitionIds).exec server.serve) w fun r t ↦
      w.Kept t ∧ ∃ state : ℕ → PartitionState,
        r = .ok (partitionIds.map fun i ↦ (state i).record i) ∧
        ∀ i ∈ partitionIds, (state i).ownerId = "" ∧ (state i).offset = "" ∧
          (state i).sequenceNumber = 0 ∧ ∃ k < t.clock, (state i).etag = server.uuid k := by
  induction partitionIds generalizing w with
  | nil =>
    exact ⟨.refl w, fun _ ↦ ⟨"", "", 0, "", 0⟩, rfl, fun _ h ↦ absurd h List.not_mem_nil⟩
  | cons partitionId partitionIds ih =>
    rw [List.nodup_cons] at hnodup
    rw [KVCheckpointStore.initialRecords, Prog.ends_exec_bind, Prog.ends_exec_perform]
    dsimp only
    refine Prog.ends_exec_bind_of (ih hnodup.2) ?_ ?_
    · rintro records t ⟨hkept, state, hrecords, hstate⟩
      obtain rfl := Except.ok.inj hrecords
      have hlater : w.clock < t.clock := hkept.clock
      set first : PartitionState := ⟨"", server.uuid w.clock, server.time w.clock, "", 0⟩
      have hne : ∀ i ∈ partitionIds, i ≠ partitionId := by
        rintro i hi rfl
        exact hnodup.1 hi
      have hold : ∀ i ∈ partitionIds, Function.update state partitionId first i = state i :=
        fun i hi ↦ Function.update_of_ne (hne i hi) first state
      refine ⟨⟨hkept.document, hlater.le⟩, Function.update state partitionId first, ?_,
        List.forall_mem_cons.mpr ⟨?_, fun i hi ↦ ?_⟩⟩
      · have hrest : partitionIds.map (fun i ↦
            (Function.update state partitionId first i).record i) =
              partitionIds.map fun i ↦ (state i).record i :=
          List.map_congr_left fun i hi ↦ by rw [hold i hi]
        rw [List.map_cons, Function.update_self, hrest]
        rfl
      · rw [Function.update_self]
        exact ⟨rfl, rfl, rfl, w.clock, hlater, rfl⟩
      · rw [hold i hi]
        exact hstate i hi
    · rintro e t ⟨-, _, h, -⟩
      exact absurd h error_ne_ok

/-- Initializing makes a store in the order of the list, or leaves the document as it was. -/
theorem KVCheckpointStore.ends_initializeKvStoreCheckpoint {partitionIds : List ℕ}
    (hperm : partitionIds.Perm (List.range n)) :
    Ends ((KVCheckpointStore.initializeKvStoreCheckpoint partitionIds).exec server.serve) w
      fun r t ↦ (∃ store : PartitionStore n, server.Represents t (some store) ∧
          store.Initial partitionIds ∧ Returned server.MayFail () r) ∨
        w.Kept t ∧ Failed server.MayFail r := by
  refine Prog.ends_exec_bind_of
    (KVCheckpointStore.ends_initialRecords (hperm.nodup_iff.mpr List.nodup_range)) ?_ ?_
  · rintro records t₁ ⟨hkept, state, hrecords, hstate⟩
    obtain rfl := Except.ok.inj hrecords
    refine ends_kvUpdate.mono fun r t ⟨hclock, hdocument⟩ ↦ ?_
    refine hdocument.imp (fun ⟨h, hr⟩ ↦ ⟨⟨partitionIds, hperm, state⟩, ⟨h, fun i hi ↦ ?_⟩, ?_, hr⟩)
      fun ⟨h, hr⟩ ↦ ⟨hkept.trans ⟨h, hclock.le⟩, hr⟩
    · obtain ⟨-, -, -, k, hk, hetag⟩ := hstate i hi
      exact ⟨k, hk.trans hclock, hetag⟩
    · exact ⟨rfl, fun i hi ↦ (hstate i hi).1, fun i hi ↦ (hstate i hi).2.1,
        fun i hi ↦ (hstate i hi).2.2.1⟩
  · rintro e t ⟨-, _, h, -⟩
    exact absurd h error_ne_ok

theorem KVCheckpointStore.ends_init_of_none {partitionIds : List ℕ}
    (hperm : partitionIds.Perm (List.range n)) (hw : w.document = none) :
    Ends ((KVCheckpointStore.init partitionIds).exec server.serve) w fun r t ↦
      (∃ store : PartitionStore n, server.Represents t (some store) ∧
          store.Initial partitionIds ∧ Returned server.MayFail () r) ∨
        t.document = none ∧ Failed server.MayFail r := by
  refine ends_kvGet_bind (fun t₁ hkept ↦ ?_) fun e t hkept hfail ↦
    Or.inr ⟨hkept.document.trans hw, hfail, e, rfl⟩
  rw [hw, if_neg (by decide)]
  refine (KVCheckpointStore.ends_initializeKvStoreCheckpoint hperm).mono fun r t h ↦ h.imp_right ?_
  exact fun ⟨hkept', hr⟩ ↦ ⟨(hkept.trans hkept').document.trans hw, hr⟩

theorem KVCheckpointStore.ends_init_of_some {partitionIds : List ℕ}
    (hperm : partitionIds.Perm (List.range n)) (hw : server.Represents w (some store)) :
    Ends ((KVCheckpointStore.init partitionIds).exec server.serve) w fun r t ↦
      server.Represents t (some store) ∧ Returned server.MayFail () r := by
  refine ends_kvGet_bind (fun t₁ hkept ↦ ?_) fun e t hkept hfail ↦
    ⟨hkept.represents hw, Or.inr ⟨hfail, e, rfl⟩⟩
  have ht₁ := hkept.represents hw
  rw [hw.1]
  split_ifs with htruthy
  · refine ends_kvRecords_bind ht₁.1 (fun t₂ hkept' ↦ ?_) fun e t hkept' hfail ↦
      ⟨hkept'.represents ht₁, Or.inr ⟨hfail, e, rfl⟩⟩
    have hlength : store.records.length = partitionIds.length := by
      rw [PartitionStore.length_records, hperm.length_eq, List.length_range]
    rw [if_neg (not_not.mpr hlength)]
    exact ⟨hkept'.represents ht₁, Or.inl rfl⟩
  · -- there are no partitions, and the document that is written is empty like the one before
    have hnil : store.records = [] := by simpa [KVCheckpointStore.truthyRecords] using htruthy
    have hn : n = 0 := by rw [← store.length_records, hnil, List.length_nil]
    refine (KVCheckpointStore.ends_initializeKvStoreCheckpoint hperm).mono ?_
    rintro r t (⟨store', ht, -, hr⟩ | ⟨hkept', hr⟩)
    · have hnil' : store'.records = [] :=
        List.length_eq_zero_iff.mp (store'.length_records.trans hn)
      refine ⟨⟨by rw [ht.1, hnil', hnil], fun i hi ↦ ?_⟩, hr⟩
      have hlt := PartitionStore.mem_order_iff.mp hi
      omega
    · exact ⟨hkept'.represents ht₁, Or.inr hr⟩

theorem ends_listing {α : Type} {f : List Record → α} (hw : server.Represents w (some store)) :
    Ends (Prog.exec server.serve (do
      let records ← kvRecords
      return f records)) w fun r t ↦
        server.Represents t (some store) ∧ Returned server.MayFail (f store.records) r :=
  ends_kvRecords_bind hw.1 (fun _ hkept ↦ ⟨hkept.represents hw, Or.inl rfl⟩)
    fun e _ hkept hfail ↦ ⟨hkept.represents hw, Or.inr ⟨hfail, e, rfl⟩⟩

end Programs

/-! ## The simulation -/

theorem KVServer.Issued.newEtag {server : KVServer} {n d : ℕ} {w : KVWorld}
    {store : PartitionStore n} {a : Acquired} (h : server.Issued w.clock d a)
    (hw : server.Represents w (some store)) : store.NewEtag a.etag := by
  intro i hi heq
  obtain ⟨k, hk, -, hetag⟩ := h.etag
  obtain ⟨k', hk', hetag'⟩ := hw.2 i hi
  have hsame : k' = k := server.uuid_injective (hetag'.symm.trans (heq.trans hetag))
  omega

/-- **The operations are steps of the store of partitions.** -/
theorem simulates_partitionStore (server : KVServer) (n : ℕ) :
    Simulates server.Step (PartitionStore.Step (n := n) server.MayFail) (StoreOp.Legal n)
      server.Represents := by
  intro w stored op result t hw hlegal hstep
  cases stored with
  | none =>
    cases op with
    | construct partitionIds =>
      obtain ⟨r, u, ⟨rfl, rfl⟩, h⟩ :=
        (Ends.and hstep (KVCheckpointStore.ends_init_of_none hlegal hw)).exists
      rcases h with ⟨store, hu, hinitial, hr⟩ | ⟨hu, hr⟩
      · exact ⟨some store, Or.inl ⟨store, rfl, hinitial, hr⟩, hu⟩
      · exact ⟨none, Or.inr ⟨rfl, hr⟩, hu⟩
    | claimOwnership ownerships =>
      obtain ⟨r, u, ⟨rfl, rfl⟩, hu, hr⟩ := (Ends.and hstep (ends_kvRecords_bind_of_none hw)).exists
      exact ⟨none, ⟨rfl, hr⟩, hu⟩
    | updateCheckpoint checkpoint =>
      obtain ⟨r, u, ⟨rfl, rfl⟩, hu, hr⟩ := (Ends.and hstep (ends_kvRecords_bind_of_none hw)).exists
      exact ⟨none, ⟨rfl, hr⟩, hu⟩
    | listOwnership hub =>
      obtain ⟨r, u, ⟨rfl, rfl⟩, hu, hr⟩ := (Ends.and hstep (ends_kvRecords_bind_of_none hw)).exists
      exact ⟨none, ⟨rfl, hr⟩, hu⟩
    | listCheckpoints hub =>
      obtain ⟨r, u, ⟨rfl, rfl⟩, hu, hr⟩ := (Ends.and hstep (ends_kvRecords_bind_of_none hw)).exists
      exact ⟨none, ⟨rfl, hr⟩, hu⟩
  | some store =>
    cases op with
    | construct partitionIds =>
      obtain ⟨r, u, ⟨rfl, rfl⟩, hu, hr⟩ :=
        (Ends.and hstep (KVCheckpointStore.ends_init_of_some hlegal hw)).exists
      exact ⟨some store, ⟨rfl, hr⟩, hu⟩
    | claimOwnership ownerships =>
      obtain ⟨r, u, ⟨rfl, rfl⟩, acquired, hclaimed, hreturned⟩ :=
        (Ends.and hstep (KVCheckpointStore.ends_claimOwnership hw hlegal.1 hlegal.2)).exists
      have hnodup : (acquired.map fun a ↦ a.claimed.partitionId).Nodup := by
        have hsublist := (hclaimed.claimed.sublist.trans List.filter_sublist).map
          Ownership.partitionId
        rw [List.map_map] at hsublist
        exact hsublist.nodup hlegal.1
      refine ⟨some (store.claim acquired), ⟨acquired, rfl, hclaimed.claimed, hclaimed.nodup,
        fun a ha ↦ ?_, hreturned⟩, hclaimed.represents⟩
      obtain ⟨hetag, htime⟩ := store.state_claim_of_mem hnodup ha
      have hissued := hclaimed.issued a ha
      obtain ⟨time, hsome⟩ := Option.isSome_iff_exists.mp hissued.lastModifiedTime
      refine ⟨hissued.newEtag hw, congrArg some hetag.symm, ?_⟩
      rw [htime, hsome]
      exact hsome
    | updateCheckpoint checkpoint =>
      obtain ⟨r, u, ⟨rfl, rfl⟩, ⟨hu, hr⟩ | ⟨hu, hr⟩⟩ :=
        (Ends.and hstep (KVCheckpointStore.ends_updateCheckpoint hw)).exists
      · exact ⟨some (store.progress checkpoint), Or.inl ⟨rfl, hr⟩, hu⟩
      · exact ⟨some store, Or.inr ⟨rfl, hr⟩, hu⟩
    | listOwnership hub =>
      obtain ⟨r, u, ⟨rfl, rfl⟩, hu, hr⟩ := (Ends.and hstep (ends_listing hw)).exists
      refine ⟨some store, ⟨rfl, ?_⟩, hu⟩
      rw [PartitionStore.records, List.map_map] at hr
      exact hr
    | listCheckpoints hub =>
      obtain ⟨r, u, ⟨rfl, rfl⟩, hu, hr⟩ := (Ends.and hstep (ends_listing hw)).exists
      refine ⟨some store, ⟨rfl, ?_⟩, hu⟩
      rw [PartitionStore.records, List.map_map] at hr
      exact hr

/-- **One client's document is a store of partitions.** Every run of one client, whichever of its
requests fail, is a run of the store of partitions with the same results, and ends with its
document: one record for each partition, in the order of the list that the store was first
constructed with. -/
theorem exists_observedRun {server : KVServer} {n c : ℕ}
    {observed : List ((op : StoreOp) × Except PyError op.Result)} {w : KVWorld}
    (h : ObservedRun server.Step ⟨none, c⟩ observed w)
    (hlegal : ∀ x ∈ observed, x.1.Legal n) :
    ∃ store : Option (PartitionStore n),
      ObservedRun (PartitionStore.Step server.MayFail) none observed store ∧
      server.Represents w store ∧ ∀ s, store = some s →
        w.document.map (List.map Record.partitionId) = some s.order ∧
          ∃ result, ⟨.construct s.order, result⟩ ∈ observed := by
  have hstart : server.Represents ⟨none, c⟩ (none : Option (PartitionStore n)) := rfl
  obtain ⟨store, hrun, hw⟩ := (simulates_partitionStore server n).run h hlegal hstart
  refine ⟨store, hrun, hw, ?_⟩
  rintro s rfl
  refine ⟨?_, PartitionStore.order_of_observedRun hrun⟩
  rw [hw.1, Option.map_some, PartitionStore.map_partitionId_records]

/-! ## A run of two partitions -/

/-- No request fails, and `uuid4` returns the number of its answer. -/
def reliableServer : KVServer where
  get _ := none
  update _ := ⟨none, true⟩
  delete _ := ⟨none, true⟩
  uuid n := toString n
  time n := n
  uuid_injective := toString_nat_injective

def someHub : HubId := ⟨"namespace", "hub", "$Default"⟩

/-- Both partitions are claimed, one of them against an etag that is not stored. -/
def claimRun : List ((op : StoreOp) × Except PyError op.Result) :=
  [⟨.construct [1, 0], .ok ()⟩,
    ⟨.claimOwnership [⟨someHub, 1, "me", some "1", none⟩, ⟨someHub, 0, "me", some "1", none⟩],
      .ok [⟨⟨someHub, 1, "me", some "1", none⟩, "6", some 6⟩]⟩,
    ⟨.updateCheckpoint ⟨someHub, 1, "10", 7⟩, .ok ()⟩,
    ⟨.listCheckpoints someHub, .ok [⟨someHub, 1, "10", 7⟩, ⟨someHub, 0, "", 0⟩]⟩]

theorem exists_observedRun_claimRun : ∃ store : Option (PartitionStore 2),
    ObservedRun (PartitionStore.Step reliableServer.MayFail) none claimRun store ∧
      reliableServer.Represents ⟨some [⟨1, "me", "6", 6, "10", 7⟩, ⟨0, "", "2", 2, "", 0⟩], 11⟩
        store ∧ ∀ s, store = some s → some [1, 0] = some s.order ∧
          ∃ result, ⟨.construct s.order, result⟩ ∈ claimRun := by
  have hrun : ObservedRun reliableServer.Step ⟨none, 0⟩ claimRun
      ⟨some [⟨1, "me", "6", 6, "10", 7⟩, ⟨0, "", "2", 2, "", 0⟩], 11⟩ :=
    .cons ⟨rfl, rfl⟩ (.cons ⟨rfl, rfl⟩ (.cons ⟨rfl, rfl⟩ (.cons ⟨rfl, rfl⟩ (.nil _))))
  have hlegal : ∀ x ∈ claimRun, x.1.Legal 2 :=
    List.forall_mem_cons.mpr ⟨List.Perm.swap 0 1 [],
      List.forall_mem_cons.mpr ⟨⟨by decide, by decide⟩,
        List.forall_mem_cons.mpr ⟨trivial, List.forall_mem_singleton.mpr trivial⟩⟩⟩
  exact exists_observedRun hrun hlegal

end MsSecurity
