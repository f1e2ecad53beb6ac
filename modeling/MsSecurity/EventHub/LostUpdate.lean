import MsSecurity.EventHub.Interleaving
import Mathlib.Data.List.Forall2

/-!
# Lost updates

Whether the document shows, for each partition, what was last stored for it: the offset and the
sequence number of the last `update_checkpoint`, the owner and the etag of the last claim. It does
in every run whose writes all find the document as it was read (`consistent_of_landing`), and the
log it is compared with has the writes of each call and no others (`WritesOwn`). The calls do
nothing to bring that about: two checkpoints of two partitions, read before either is written,
leave one of them undone (`update_lost`).
-/

namespace MsSecurity

/-! ## What was stored last -/

/-- The progress a change stores for a partition. -/
def Change.checkpointOf (partitionId : ℕ) : Change → Option (String × ℤ)
  | .checkpoint c => if c.partitionId = partitionId then some (c.offset, c.sequenceNumber) else none
  | .claim _ => none
  | .initial _ => none

/-- The owner and the etag a change stores for a partition. -/
def Change.claimOf (partitionId : ℕ) : Change → Option (String × String)
  | .checkpoint _ => none
  | .claim a =>
    if a.claimed.partitionId = partitionId then some (a.claimed.ownerId, a.etag) else none
  | .initial _ => none

/-- What the last change in a log that stores something stores. -/
def lastOf {α : Type} (f : Change → Option α) (log : List (ℕ × Change)) : Option α :=
  (log.filterMap fun entry ↦ f entry.2).getLast?

theorem lastOf_concat {α : Type} (f : Change → Option α) (log : List (ℕ × Change)) (i : ℕ)
    (change : Change) : lastOf f (log ++ [(i, change)]) = (f change).or (lastOf f log) := by
  rw [lastOf, List.filterMap_append, List.getLast?_append]
  cases hf : f change <;> simp [hf, lastOf]

/-- A record shows what the log stores last for its partition, or else what it held at first. -/
structure ShowsLast (log : List (ℕ × Change)) (first record : Record) : Prop where
  partitionId : record.partitionId = first.partitionId
  progress : (record.offset, record.sequenceNumber) =
    (lastOf (Change.checkpointOf record.partitionId) log).getD (first.offset, first.sequenceNumber)
  owner : (record.ownerId, record.etag) =
    (lastOf (Change.claimOf record.partitionId) log).getD (first.ownerId, first.etag)

/-- The document has a record for each partition it had one for at first, no other, and each shows
what was stored last. -/
def Consistent (first : List Record) (w : StoreWorld) : Prop :=
  List.Forall₂ (ShowsLast w.log) first w.records

theorem ShowsLast.refl (record : Record) : ShowsLast [] record record where
  partitionId := rfl
  progress := rfl
  owner := rfl

theorem ShowsLast.apply {log : List (ℕ × Change)} {first record : Record} {i : ℕ} {change : Change}
    (h : ShowsLast log first record) (edit : Record → Record)
    (hid : (edit record).partitionId = record.partitionId)
    (hprogress : ((edit record).offset, (edit record).sequenceNumber) =
      (change.checkpointOf record.partitionId).getD (record.offset, record.sequenceNumber))
    (howner : ((edit record).ownerId, (edit record).etag) =
      (change.claimOf record.partitionId).getD (record.ownerId, record.etag)) :
    ShowsLast (log ++ [(i, change)]) first (edit record) where
  partitionId := hid.trans h.partitionId
  progress := by
    rw [hprogress, hid, lastOf_concat, h.progress]
    cases change.checkpointOf record.partitionId <;> rfl
  owner := by
    rw [howner, hid, lastOf_concat, h.owner]
    cases change.claimOf record.partitionId <;> rfl

theorem Consistent.map_partitionId {first : List Record} {w : StoreWorld}
    (h : Consistent first w) :
    w.records.map Record.partitionId = first.map Record.partitionId := by
  unfold Consistent at h
  generalize w.records = records at h
  induction h with
  | nil => rfl
  | cons hshows _ ih => rw [List.map_cons, List.map_cons, hshows.partitionId, ih]

/-- A change applied to a document with one record a partition is what the log then says. -/
theorem Consistent.apply {first : List Record} {w : StoreWorld} (h : Consistent first w)
    (hnodup : (w.records.map Record.partitionId).Nodup) {i : ℕ} {change : Change}
    (hchange : ∀ records, change ≠ .initial records) {w' : StoreWorld}
    (hrecords : w'.records = change.apply w.records) (hlog : w'.log = w.log ++ [(i, change)]) :
    Consistent first w' := by
  unfold Consistent
  rw [hrecords, hlog]
  cases change with
  | checkpoint c =>
    rw [Change.apply, modifyRecord_eq_map hnodup, List.forall₂_map_right_iff]
    refine h.imp fun r₀ r hshows ↦ ?_
    rcases eq_or_ne r.partitionId c.partitionId with hp | hp
    · rw [if_pos hp]
      exact hshows.apply c.edit rfl (by rw [Change.checkpointOf, if_pos hp.symm]; rfl) rfl
    · rw [if_neg hp]
      exact hshows.apply id rfl (by rw [Change.checkpointOf, if_neg hp.symm]; rfl) rfl
  | claim a =>
    rw [Change.apply, modifyRecord_eq_map hnodup, List.forall₂_map_right_iff]
    refine h.imp fun r₀ r hshows ↦ ?_
    rcases eq_or_ne r.partitionId a.claimed.partitionId with hp | hp
    · rw [if_pos hp]
      exact hshows.apply a.edit rfl rfl (by rw [Change.claimOf, if_pos hp.symm]; rfl)
    · rw [if_neg hp]
      exact hshows.apply id rfl rfl (by rw [Change.claimOf, if_neg hp.symm]; rfl)
  | initial records => exact absurd rfl (hchange records)

/-! ## What a call writes for -/

/-- The changes a call is there to make. -/
def StoreCall.MadeFor : StoreCall → Change → Prop
  | .updateCheckpoint checkpoint, change => change = .checkpoint checkpoint
  | .claimOwnership ownerships, change => ∃ a, change = .claim a ∧ a.claimed ∈ ownerships

/-- The contract of a program that writes for such changes alone. -/
def writesFor (made : Change → Prop) : Contract Unit Request Answer where
  pre _
    | .update change _ => made change
    | .get => True
    | .stamp => True
    | .delete => True
    | .selectElements _ _ => True
  post _ _ _ _ := True

section WritesFor

variable {made : Change → Prop}

theorem wp_kvRecords_writesFor {Q : Unit → Except PyError (List Record) → Prop}
    (hQ : ∀ r, Q () r) : kvRecords.wp (writesFor made) Q () := by
  rw [wp_kvRecords]
  refine ⟨trivial, fun r _ _ ↦ ?_⟩
  match r with
  | .ok (some records) => exact hQ _
  | .ok none => exact hQ _
  | .error e => exact hQ _

theorem wp_acquire_writesFor {ownership : Ownership} {etag : String}
    (hmade : ∀ a : Acquired, a.claimed = ownership → made (.claim a))
    {Q : Unit → Except PyError Acquired → Prop} (hQ : ∀ r, Q () r) :
    (KVCheckpointStore.acquire ownership etag).wp (writesFor made) Q () := by
  rw [KVCheckpointStore.acquire, Prog.wp_bind]
  refine wp_kvRecords_writesFor fun records ↦ ?_
  cases records with
  | error e => exact hQ _
  | ok records =>
    dsimp only
    split_ifs
    · rw [Prog.wp_bind, Prog.wp_perform]
      refine ⟨trivial, fun stamp _ _ ↦ ?_⟩
      dsimp only
      rw [Prog.wp_bind, wp_kvUpdate]
      refine ⟨hmade _ rfl, fun r _ _ ↦ ?_⟩
      cases r <;> exact hQ _
    · rw [Prog.wp_bind, wp_kvUpdate]
      refine ⟨hmade _ rfl, fun r _ _ ↦ ?_⟩
      cases r <;> exact hQ _

theorem wp_claimEach_writesFor {etags : List String} {ownerships : List Ownership}
    (hmade : ∀ a : Acquired, a.claimed ∈ ownerships → made (.claim a))
    {Q : Unit → Except PyError (List Acquired) → Prop} (hQ : ∀ r, Q () r) :
    (KVCheckpointStore.claimEach etags ownerships).wp (writesFor made) Q () := by
  induction ownerships generalizing Q with
  | nil => exact hQ _
  | cons ownership ownerships ih =>
    have hrest := fun a ha ↦ hmade a (List.mem_cons_of_mem _ ha)
    rw [KVCheckpointStore.claimEach, Prog.wp_bind, Prog.wp_lift]
    cases KVCheckpointStore.etagAt etags ownership.partitionId with
    | error e => exact hQ _
    | ok etag =>
      dsimp only
      split_ifs
      · rw [Prog.wp_bind]
        refine wp_acquire_writesFor (fun a ha ↦ hmade a (ha ▸ List.mem_cons_self)) fun r ↦ ?_
        cases r with
        | error e => exact hQ _
        | ok acquired =>
          dsimp only
          rw [Prog.wp_bind]
          refine ih hrest fun r ↦ ?_
          cases r <;> exact hQ _
      · exact ih hrest hQ

/-- A call writes for nothing but what it is there for. -/
theorem wp_body_writesFor (call : StoreCall) :
    call.body.wp (writesFor call.MadeFor) (fun _ _ ↦ True) () := by
  cases call with
  | updateCheckpoint checkpoint =>
    rw [StoreCall.body, KVCheckpointStore.updateCheckpoint, Prog.wp_bind, Prog.wp_bind]
    refine wp_kvRecords_writesFor fun records ↦ ?_
    cases records with
    | error e => trivial
    | ok records =>
      dsimp only
      rw [wp_kvUpdate]
      refine ⟨rfl, fun r _ _ ↦ ?_⟩
      cases r <;> trivial
  | claimOwnership ownerships =>
    rw [StoreCall.body, KVCheckpointStore.claimOwnership, Prog.wp_bind]
    refine wp_kvRecords_writesFor fun records ↦ ?_
    cases records with
    | error e => trivial
    | ok records =>
      dsimp only
      rw [Prog.wp_bind, Prog.wp_lift]
      cases KVCheckpointStore.etagArr records with
      | error e => trivial
      | ok etags => exact wp_claimEach_writesFor (fun a ha ↦ ⟨a, rfl, ha⟩) fun _ ↦ trivial

end WritesFor

namespace StorePool

/-- Each write in the log was made by one of the calls, for what that call is there for. -/
def WritesOwn (p : StorePool) : Prop :=
  ∀ i change, (i, change) ∈ p.world.log →
    ∃ call rest, p.threads[i]? = some ⟨call, rest⟩ ∧ call.MadeFor change

/-- `WritesOwn`, with what it needs of the calls under way. -/
structure OwnSound (p : StorePool) : Prop where
  threads : ∀ {i : ℕ} {call : StoreCall} {rest : StoreProg (List Acquired)},
    p.threads[i]? = some ⟨call, rest⟩ → rest.wp (writesFor call.MadeFor) (fun _ _ ↦ True) ()
  log : p.WritesOwn

theorem log_serve {w w' : StoreWorld} {i : ℕ} {e : Request} {stamp : String × ℤ} {r : Answer e}
    (h : w.serve i e stamp = some (r, w')) {entry : ℕ × Change} (hentry : entry ∈ w'.log) :
    entry ∈ w.log ∨ ∃ change records, e = .update change records ∧ entry = (i, change) := by
  cases e with
  | get =>
    obtain ⟨-, rfl⟩ := Prod.mk.inj (Option.some.inj h)
    exact Or.inl hentry
  | stamp =>
    obtain ⟨-, rfl⟩ := Prod.mk.inj (Option.some.inj h)
    exact Or.inl hentry
  | update change records =>
    obtain ⟨-, rfl⟩ := Prod.mk.inj (Option.some.inj h)
    rcases List.mem_append.mp hentry with hentry | hentry
    · exact Or.inl hentry
    · exact Or.inr ⟨change, records, rfl, List.mem_singleton.mp hentry⟩
  | delete => cases h
  | selectElements p event => cases h

theorem OwnSound.start {p : StorePool} (h : p.OwnSound) (call : StoreCall) :
    OwnSound ⟨p.world, p.threads ++ [⟨call, call.body⟩]⟩ where
  threads := by
    intro i call' rest ht
    rcases List.mem_append.mp (List.mem_of_getElem? ht) with hmem | hmem
    · obtain ⟨j, hj⟩ := List.mem_iff_getElem?.mp hmem
      exact h.threads hj
    · obtain ⟨rfl, rfl⟩ := Thread.mk.inj (List.mem_singleton.mp hmem)
      exact wp_body_writesFor _
  log := by
    intro i change hmem
    obtain ⟨call', rest, ht, hmade⟩ := h.log i change hmem
    have hlt : i < p.threads.length := (List.getElem?_eq_some_iff.mp ht).1
    exact ⟨call', rest, (List.getElem?_append_left hlt).trans ht, hmade⟩

theorem OwnSound.act {p q : StorePool} (h : p.OwnSound) {i : ℕ} {stamp : String × ℤ}
    (hstep : p.step (.act i stamp) = some q) : q.OwnSound := by
  obtain ⟨call, e, next, r, w, hthread, hserve, rfl⟩ := Pool.step_act_eq_some_iff.mp hstep
  obtain ⟨hpre, hnext⟩ := h.threads hthread
  have hlt : i < p.threads.length := (List.getElem?_eq_some_iff.mp hthread).1
  refine ⟨fun {j call' rest} ht ↦ ?_, fun j change hmem ↦ ?_⟩
  · rcases eq_or_ne i j with rfl | hij
    · obtain ⟨rfl, rfl⟩ :=
        Thread.mk.inj (Option.some.inj ((List.getElem?_set_self hlt).symm.trans ht))
      exact hnext r () trivial
    · exact h.threads ((List.getElem?_set_ne hij).symm.trans ht)
  · rcases log_serve hserve hmem with hmem | ⟨change', records, rfl, hentry⟩
    · obtain ⟨call', rest, ht, hmade⟩ := h.log j change hmem
      rcases eq_or_ne i j with rfl | hij
      · -- the thread that acts keeps its call
        obtain ⟨rfl, -⟩ := Thread.mk.inj (Option.some.inj (hthread.symm.trans ht))
        exact ⟨_, _, List.getElem?_set_self hlt, hmade⟩
      · exact ⟨call', rest, (List.getElem?_set_ne hij).trans ht, hmade⟩
    · obtain ⟨rfl, rfl⟩ := Prod.mk.inj hentry
      exact ⟨_, _, List.getElem?_set_self hlt, hpre⟩

theorem OwnSound.step {p q : StorePool} {a : StoreAction} (h : p.OwnSound)
    (hstep : p.step a = some q) : q.OwnSound := by
  cases a with
  | start call =>
    obtain rfl := Option.some.inj hstep
    exact h.start call
  | act i stamp => exact h.act hstep

theorem Initial.ownSound {p : StorePool} (h : p.Initial) : p.OwnSound where
  threads := by
    intro i call rest ht
    rw [h.threads] at ht
    cases ht
  log := by
    intro i change hmem
    rw [h.log] at hmem
    cases hmem

/-! ## Runs whose writes land -/

/-- A write that lands makes of the stored document what its change says. -/
theorem records_eq_apply {ids : List ℕ} {p : StorePool} {i : ℕ} {stamp : String × ℤ}
    {change : Change} {records : List Record} (hok : p.Landing (.act i stamp))
    (hrequest : p.request i = some (.update change records))
    (h : (contract ids).pre (view p.world i) (.update change records)) :
    records = change.apply p.world.records := by
  obtain ⟨read, hread, rfl, -⟩ := h
  -- the contract speaks of the document read last, the guard says that it is the stored one
  have hlast : p.world.lastRead i = some read := hread
  rw [hok change _ hrequest] at hlast
  rw [Option.some.inj hlast]

theorem consistent_serve {first : List Record} (hnodup : (first.map Record.partitionId).Nodup)
    {p : StorePool} {i : ℕ} {stamp : String × ℤ} {e : Request} {r : Answer e} {w : StoreWorld}
    (h : Consistent first p.world) (hok : p.Landing (.act i stamp))
    (hrequest : p.request i = some e)
    (hpre : (contract (first.map Record.partitionId)).pre (view p.world i) e)
    (hserve : p.world.serve i e stamp = some (r, w)) : Consistent first w := by
  cases e with
  | get =>
    obtain ⟨-, rfl⟩ := Prod.mk.inj (Option.some.inj hserve)
    exact h
  | stamp =>
    obtain ⟨-, rfl⟩ := Prod.mk.inj (Option.some.inj hserve)
    exact h
  | update change records =>
    obtain ⟨-, rfl⟩ := Prod.mk.inj (Option.some.inj hserve)
    exact h.apply (h.map_partitionId ▸ hnodup) (ne_initial_of_pre hpre)
      (records_eq_apply hok hrequest hpre) rfl
  | delete => cases hserve
  | selectElements p event => cases hserve

/-- **No lost update, where writes land.** In every run in which each write finds the document as
its call read it last, the document has a record for each partition and shows there the progress
stored by the last `update_checkpoint` and the owner and etag stored by the last claim; every call
that returned has its writes among them, and no call has other writes there than its own. -/
theorem consistent_of_landing {s t : StorePool} {as : List StoreAction} (hs : s.Initial)
    (hnodup : (s.world.records.map Record.partitionId).Nodup)
    (hrun : Run step (fun p a ↦ p.NoOverlap a ∧ p.Landing a) s as t) :
    Consistent s.world.records t.world ∧ t.Logged ∧ t.WritesOwn := by
  have hinit : s.Sound (contract (s.world.records.map Record.partitionId)) view Returns
      (Consistent s.world.records) := by
    refine ⟨?_, fun {i t} ht ↦ ?_⟩
    · rw [Consistent, hs.log, List.forall₂_same]
      exact fun record _ ↦ ShowsLast.refl record
    · rw [hs.threads] at ht
      cases ht
  have hsound := hrun.invariant (fun h hok hstep ↦ sound_step (I := Consistent s.world.records)
    (fun w hw ↦ hw.map_partitionId) (fun h hok ↦ consistent_serve hnodup h hok.2) h hok hstep) hinit
  have hown := hrun.invariant (fun h _ hstep ↦ OwnSound.step h hstep) hs.ownSound
  exact ⟨hsound.world, logged_of_sound hsound, hown.log⟩

/-! ## A lost update

Two partitions, a checkpoint of each. -/

def someCheckpoint (partitionId : ℕ) (offset : String) (sequenceNumber : ℤ) : Checkpoint where
  hub := someHub
  partitionId := partitionId
  offset := offset
  sequenceNumber := sequenceNumber

/-- One checkpoint after the other. -/
def checkpointsInTurn : List StoreAction :=
  [.start (.updateCheckpoint (someCheckpoint 0 "120" 3)),
    .start (.updateCheckpoint (someCheckpoint 1 "340" 8)),
    .act 0 ("", 0), .act 0 ("", 0), .act 1 ("", 0), .act 1 ("", 0)]

/-- Both read before either writes. -/
def checkpointsCrossing : List StoreAction :=
  [.start (.updateCheckpoint (someCheckpoint 0 "120" 3)),
    .start (.updateCheckpoint (someCheckpoint 1 "340" 8)),
    .act 0 ("", 0), .act 1 ("", 0), .act 0 ("", 0), .act 1 ("", 0)]

private theorem noOverlap_second (partitionId : ℕ) (hp : partitionId ≠ 0) (t : StorePool)
    (ht : twoPartitions.step (.start (.updateCheckpoint (someCheckpoint 0 "120" 3))) = some t) :
    t.NoOverlap (.start (.updateCheckpoint (someCheckpoint partitionId "340" 8))) := by
  obtain rfl := Option.some.inj ht
  intro i thread hthread _ other hother
  match i, hthread with
  | 0, hthread =>
    obtain rfl := Option.some.inj hthread
    obtain rfl := StoreCall.updateCheckpoint.inj hother
    exact Ne.symm hp

theorem consistent_of_landing_twoPartitions :
    ∃ t, Run.exec step twoPartitions checkpointsInTurn = some t ∧
      Consistent twoPartitions.world.records t.world ∧ t.Logged ∧ t.WritesOwn := by
  refine ⟨_, rfl, consistent_of_landing twoPartitions_initial (by decide)
    (Run.of_exec checkpointsInTurn rfl ?_)⟩
  refine ⟨⟨fun _ _ h ↦ (nomatch h), trivial⟩, fun t ht ↦ ⟨⟨noOverlap_second 1 (by decide) t ht,
    trivial⟩, fun u hu ↦ ?_⟩⟩
  obtain rfl := Option.some.inj ht
  obtain rfl := Option.some.inj hu
  refine ⟨⟨trivial, fun _ _ h ↦ (nomatch Option.some.inj h)⟩, fun t ht ↦ ?_⟩
  obtain rfl := Option.some.inj ht
  refine ⟨⟨trivial, fun _ _ _ ↦ rfl⟩, fun t ht ↦ ?_⟩
  obtain rfl := Option.some.inj ht
  refine ⟨⟨trivial, fun _ _ h ↦ (nomatch Option.some.inj h)⟩, fun t ht ↦ ?_⟩
  obtain rfl := Option.some.inj ht
  exact ⟨⟨trivial, fun _ _ _ ↦ rfl⟩, fun _ _ ↦ trivial⟩

/-- The checkpoint of partition 0 returns, and the other call writes it away. -/
theorem update_lost :
    ¬∀ (s t : StorePool) (as : List StoreAction), s.Initial →
      (s.world.records.map Record.partitionId).Nodup → Run step NoOverlap s as t →
      (∀ i, ¬t.Running i) → Consistent s.world.records t.world := by
  intro h
  obtain ⟨t, ht, hrecords, hlog, hdone⟩ : ∃ t,
      Run.exec step twoPartitions checkpointsCrossing = some t ∧
      t.world.records = [newRecord 0 "e0",
        { newRecord 1 "e1" with offset := "340", sequenceNumber := 8 }] ∧
      t.world.log = [(0, .checkpoint (someCheckpoint 0 "120" 3)),
        (1, .checkpoint (someCheckpoint 1 "340" 8))] ∧
      t.threads = [⟨.updateCheckpoint (someCheckpoint 0 "120" 3), .pure []⟩,
        ⟨.updateCheckpoint (someCheckpoint 1 "340" 8), .pure []⟩] := ⟨_, rfl, rfl, rfl, rfl⟩
  have hrun : Run step NoOverlap twoPartitions checkpointsCrossing t :=
    Run.of_exec _ ht ⟨fun _ _ h ↦ (nomatch h), fun t ht ↦ ⟨noOverlap_second 1 (by decide) t ht,
      fun _ _ ↦ ⟨trivial, fun _ _ ↦ ⟨trivial, fun _ _ ↦ ⟨trivial, fun _ _ ↦ ⟨trivial,
        fun _ _ ↦ trivial⟩⟩⟩⟩⟩⟩
  have hquiet : ∀ i, ¬t.Running i := by
    intro i hi
    rw [Running, request, hdone] at hi
    obtain _ | _ | i := i
    · exact hi rfl
    · exact hi rfl
    · exact hi rfl
  have hconsistent := h twoPartitions t checkpointsCrossing twoPartitions_initial (by decide) hrun
    hquiet
  rw [Consistent, hrecords] at hconsistent
  obtain ⟨hshows, -⟩ := List.forall₂_cons.mp hconsistent
  -- the log ends with offset 120 for partition 0, the document shows none
  have hprogress := hshows.progress
  rw [hlog] at hprogress
  have hstored : (("", 0) : String × ℤ) = ("120", 3) := hprogress
  exact absurd hstored (by decide)

end StorePool

end MsSecurity
