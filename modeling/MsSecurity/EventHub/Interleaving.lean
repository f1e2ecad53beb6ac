import MsSecurity.EventHub.CheckpointStore
import MsSecurity.Transition.Pool
import Mathlib.Logic.Function.Basic

/-!
# Interleaved calls on one document

The receive loop of an event processor calls `update_checkpoint`, its load-balancing thread calls
`claim_ownership`, and other processes do the same, all on one document of the KV store whose `get`
and `update` are atomic. Here any number of these calls interleave, and a log keeps what each write
was for.

What a call is obliged to is little, and `ends_with` says it: it writes the document it read last,
edited for the one partition that the write is for. Nothing stops another call from writing between
that read and that write. `Landing` is the assumption that none does, and the modules on lost
updates and on optimistic locking say what holds with it and what goes wrong without it.
-/

namespace MsSecurity

/-! ## Calls, world and steps -/

/-- A call on the checkpoint store. -/
inductive StoreCall
  | updateCheckpoint (checkpoint : Checkpoint)
  | claimOwnership (ownerships : List Ownership)
  deriving DecidableEq

/-- The program of a call; the result is what `claim_ownership` acquired. -/
def StoreCall.body : StoreCall → StoreProg (List Acquired)
  | .updateCheckpoint checkpoint => do
    KVCheckpointStore.updateCheckpoint checkpoint
    return []
  | .claimOwnership ownerships => KVCheckpointStore.claimOwnership ownerships

/-- The document, and what the calls have done so far. -/
structure StoreWorld where
  records : List Record
  /-- The values `uuid4` has returned. -/
  issued : List String
  /-- The document each call read last. -/
  lastRead : ℕ → Option (List Record)
  /-- The value `uuid4` returned to a call that has not written it yet. -/
  pending : ℕ → Option String
  /-- The writes, oldest first, each with its call. -/
  log : List (ℕ × Change)

/-- How the world answers a request of call `i`. The uuid and the time come from outside. -/
def StoreWorld.serve (w : StoreWorld) (i : ℕ) :
    (e : Request) → String × ℤ → Option (Answer e × StoreWorld)
  | .get, _ => some (.ok (some w.records),
      { w with lastRead := Function.update w.lastRead i (some w.records) })
  | .update change records, _ => some (.ok (), { w with
      records := records
      pending := Function.update w.pending i none
      log := w.log ++ [(i, change)] })
  | .stamp, stamp => some (stamp, { w with
      issued := stamp.1 :: w.issued
      pending := Function.update w.pending i (some stamp.1) })
  | .delete, _ => none
  | .selectElements _ _, _ => none

abbrev StorePool := Pool StoreWorld StoreCall Request Answer PyError (List Acquired)

abbrev StoreAction := PoolAction StoreCall (String × ℤ)

namespace StorePool

/-- One action of the calls. -/
def step (p : StorePool) (a : StoreAction) : Option StorePool :=
  Pool.step StoreCall.body StoreWorld.serve p a

/-- The request call `i` is waiting with. -/
def request (p : StorePool) (i : ℕ) : Option Request :=
  match p.threads[i]? with
  | some ⟨_, .call e _⟩ => some e
  | _ => none

/-- Call `i` is under way. -/
def Running (p : StorePool) (i : ℕ) : Prop := p.request i ≠ none

/-- No call is started while another one for the same partition and purpose is under way. -/
def NoOverlap (p : StorePool) : StoreAction → Prop
  | .start (.updateCheckpoint checkpoint) => ∀ i t, p.threads[i]? = some t → p.Running i →
      ∀ other, t.call = .updateCheckpoint other → other.partitionId ≠ checkpoint.partitionId
  | .start (.claimOwnership ownerships) => ∀ i t, p.threads[i]? = some t → p.Running i →
      ∀ others, t.call = .claimOwnership others →
        ∀ a ∈ ownerships, ∀ b ∈ others, a.partitionId ≠ b.partitionId
  | .act _ _ => True

/-- `uuid4` returns values it has not returned before. -/
def Fresh (p : StorePool) : StoreAction → Prop
  | .start _ => True
  | .act i stamp => p.request i = some .stamp → stamp.1 ∉ p.world.issued

/-- A write finds the document as its call read it last: no other call has written in between. -/
def Landing (p : StorePool) : StoreAction → Prop
  | .start _ => True
  | .act i _ => ∀ change records, p.request i = some (.update change records) →
      p.world.lastRead i = some p.world.records

/-- Nothing has happened yet. -/
structure Initial (p : StorePool) : Prop where
  threads : p.threads = []
  log : p.world.log = []
  pending : ∀ i, p.world.pending i = none

/-! ## What a call is obliged to -/

/-- What one call relies on: the document it read last, the etag it got and has not written yet, and
the writes it has made. -/
structure CallView where
  lastRead : Option (List Record)
  pending : Option String
  written : List Change

/-- Views of different worlds are not compared: other calls leave a call's view alone. -/
instance : Preorder CallView where
  le := Eq
  le_refl := Eq.refl
  le_trans _ _ _ := Eq.trans

/-- The view of call `i`. -/
def view (w : StoreWorld) (i : ℕ) : CallView where
  lastRead := w.lastRead i
  pending := w.pending i
  written := (w.log.filter fun entry ↦ entry.1 = i).map Prod.snd

/-- The contract of the calls over documents of the partitions `ids`: a write makes of the document
read last what its change says, and a claim writes the etag it got. -/
def contract (ids : List ℕ) : Contract CallView Request Answer where
  pre v
    | .update change records => ∃ read, v.lastRead = some read ∧ records = change.apply read ∧
        match change with
        | .checkpoint _ => True
        | .claim a => a.claimed.partitionId ∈ ids → v.pending = some a.etag
        | .initial _ => False
    | .get => True
    | .stamp => True
    | .delete => False
    | .selectElements _ _ => False
  post v
    | .get => fun r v' ↦ ∃ records, r = .ok (some records) ∧
        records.map Record.partitionId = ids ∧ v' = { v with lastRead := some records }
    | .update change _ => fun r v' ↦ r = .ok () ∧
        v' = { v with pending := none, written := v.written ++ [change] }
    | .stamp => fun r v' ↦ v' = { v with pending := some r.1 }
    | .delete => fun _ _ ↦ True
    | .selectElements _ _ => fun _ _ ↦ True

/-- What a call has achieved when it returns: its checkpoint, or everything it acquired, is
written. -/
def Returns (call : StoreCall) (v : CallView) (r : Except PyError (List Acquired)) : Prop :=
  ∀ acquired, r = .ok acquired → (∀ a ∈ acquired, Change.claim a ∈ v.written) ∧
    ∀ checkpoint, call = .updateCheckpoint checkpoint → Change.checkpoint checkpoint ∈ v.written

theorem contract_stable (ids : List ℕ) : (contract ids).Stable where
  pre_mono := fun hle h ↦ by cases hle; exact h
  post_mono := fun hle h ↦ by cases hle; exact h

variable {ids : List ℕ} {v : CallView}

theorem wp_updateCheckpoint {checkpoint : Checkpoint}
    {Q : CallView → Except PyError Unit → Prop}
    (hQ : ∀ v', v'.written = v.written ++ [.checkpoint checkpoint] → Q v' (.ok ())) :
    (KVCheckpointStore.updateCheckpoint checkpoint).wp (contract ids) Q v := by
  rw [KVCheckpointStore.updateCheckpoint, Prog.wp_bind, wp_kvRecords]
  refine ⟨trivial, ?_⟩
  rintro r v' ⟨records, rfl, hids, rfl⟩
  dsimp only
  rw [wp_kvUpdate]
  refine ⟨⟨records, rfl, rfl, trivial⟩, ?_⟩
  rintro r v' ⟨rfl, rfl⟩
  exact hQ _ rfl

/-- Acquiring one partition writes the claim it returns, on top of what was written before. -/
theorem wp_acquire {ownership : Ownership} {etag : String}
    {Q : CallView → Except PyError Acquired → Prop}
    (hQ : ∀ v' a, v'.written = v.written ++ [.claim a] → Q v' (.ok a)) :
    (KVCheckpointStore.acquire ownership etag).wp (contract ids) Q v := by
  rw [KVCheckpointStore.acquire, Prog.wp_bind, wp_kvRecords]
  refine ⟨trivial, ?_⟩
  rintro r v' ⟨records, rfl, hids, rfl⟩
  dsimp only
  split_ifs with hmem
  · rw [Prog.wp_bind, Prog.wp_perform]
    refine ⟨trivial, ?_⟩
    rintro ⟨newEtag, now⟩ v' rfl
    dsimp only
    rw [Prog.wp_bind, wp_kvUpdate]
    refine ⟨⟨records, rfl, rfl, fun _ ↦ rfl⟩, ?_⟩
    rintro r v' ⟨rfl, rfl⟩
    exact hQ _ _ rfl
  · -- no record of that partition: the claim leaves the document as it was read
    rw [Prog.wp_bind, wp_kvUpdate]
    refine ⟨⟨records, rfl, (modifyRecord_of_not_mem hmem).symm, ?_⟩, ?_⟩
    · exact fun h ↦ absurd (hids ▸ h) hmem
    · rintro r v' ⟨rfl, rfl⟩
      exact hQ _ _ rfl

theorem wp_claimEach {etags : List String} {ownerships : List Ownership}
    {Q : CallView → Except PyError (List Acquired) → Prop}
    (herror : ∀ v e, Q v (.error e))
    (hok : ∀ v' acquired, v'.written = v.written ++ acquired.map .claim → Q v' (.ok acquired)) :
    (KVCheckpointStore.claimEach etags ownerships).wp (contract ids) Q v := by
  induction ownerships generalizing v Q with
  | nil => exact hok v [] (by simp)
  | cons ownership ownerships ih =>
    rw [KVCheckpointStore.claimEach, Prog.wp_bind, Prog.wp_lift]
    cases KVCheckpointStore.etagAt etags ownership.partitionId with
    | error e => exact herror v e
    | ok etag =>
      dsimp only
      split_ifs with hetag
      · rw [Prog.wp_bind]
        refine wp_acquire fun v' a ha ↦ ?_
        dsimp only
        rw [Prog.wp_bind]
        refine ih (fun v e ↦ herror v e) fun v'' acquired hacquired ↦ ?_
        refine hok v'' (a :: acquired) ?_
        rw [hacquired, ha, List.map_cons, List.append_assoc, List.singleton_append]
      · -- an etag that does not match is passed over
        exact ih herror hok

/-- **Every call meets its obligation**, whatever it relies on when it starts. -/
theorem wp_body (call : StoreCall) : call.body.wp (contract ids) (Returns call) v := by
  cases call with
  | updateCheckpoint checkpoint =>
    rw [StoreCall.body, Prog.wp_bind]
    refine wp_updateCheckpoint fun v' hwritten acquired h ↦ ?_
    obtain rfl := Except.ok.inj h
    refine ⟨fun a ha ↦ absurd ha List.not_mem_nil, fun other hother ↦ ?_⟩
    obtain rfl := StoreCall.updateCheckpoint.inj hother
    rw [hwritten]
    exact List.mem_append_right _ List.mem_cons_self
  | claimOwnership ownerships =>
    rw [StoreCall.body, KVCheckpointStore.claimOwnership, Prog.wp_bind, wp_kvRecords]
    refine ⟨trivial, ?_⟩
    rintro r v' ⟨records, rfl, hids, rfl⟩
    dsimp only
    rw [Prog.wp_bind, Prog.wp_lift]
    cases KVCheckpointStore.etagArr records with
    | error e => exact fun acquired h ↦ nomatch h
    | ok etags =>
      refine wp_claimEach (fun v e acquired h ↦ nomatch h) fun v'' acquired hwritten ↦ ?_
      intro acquired' h
      obtain rfl := Except.ok.inj h
      refine ⟨fun a ha ↦ ?_, fun _ h ↦ nomatch h⟩
      rw [hwritten]
      exact List.mem_append_right _ (List.mem_map_of_mem ha)

/-! ## The world keeps the contract -/

theorem serve_post {w w' : StoreWorld} {i : ℕ} {e : Request} {stamp : String × ℤ} {r : Answer e}
    (hids : w.records.map Record.partitionId = ids) (h : w.serve i e stamp = some (r, w')) :
    (contract ids).post (view w i) e r (view w' i) ∧ ∀ j, j ≠ i → view w j ≤ view w' j := by
  cases e with
  | get =>
    obtain ⟨rfl, rfl⟩ := Prod.mk.inj (Option.some.inj h)
    refine ⟨⟨w.records, rfl, hids, by simp [view]⟩, fun j hj ↦ ?_⟩
    change view w j = _
    simp [view, hj]
  | update change records =>
    obtain ⟨rfl, rfl⟩ := Prod.mk.inj (Option.some.inj h)
    refine ⟨⟨rfl, by simp [view]⟩, fun j hj ↦ ?_⟩
    change view w j = _
    simp [view, hj, Ne.symm hj]
  | stamp =>
    obtain ⟨rfl, rfl⟩ := Prod.mk.inj (Option.some.inj h)
    refine ⟨?_, fun j hj ↦ ?_⟩
    · change _ = _
      simp [view]
    · change view w j = _
      simp [view, hj]
  | delete => cases h
  | selectElements p event => cases h

theorem request_eq_some {p : StorePool} {i : ℕ} {call : StoreCall} {e : Request}
    {next : Answer e → StoreProg (List Acquired)}
    (h : p.threads[i]? = some ⟨call, .call e next⟩) : p.request i = some e := by
  rw [request, h]

/-- **One action keeps the pool sound** for an invariant of the world that the answers keep. -/
theorem sound_step {I : StoreWorld → Prop} {ok : StorePool → StoreAction → Prop}
    (hids : ∀ w, I w → w.records.map Record.partitionId = ids)
    (hI : ∀ {p : StorePool} {i stamp e} {r : Answer e} {w'}, I p.world → ok p (.act i stamp) →
      p.request i = some e → (contract ids).pre (view p.world i) e →
      p.world.serve i e stamp = some (r, w') → I w')
    {p q : StorePool} {a : StoreAction} (h : p.Sound (contract ids) view Returns I)
    (hok : ok p a) (hstep : p.step a = some q) : q.Sound (contract ids) view Returns I := by
  cases a with
  | start call =>
    obtain rfl := Option.some.inj hstep
    exact h.start (wp_body call)
  | act i stamp =>
    refine Pool.Sound.act (contract_stable ids) ?_ h ?_ hstep
    · intro call v v' x hle hx
      cases hle
      exact hx
    · intro call e next r w' hthread hpre hserve
      obtain ⟨hpost, hothers⟩ := serve_post (hids _ h.world) hserve
      exact ⟨hI h.world hok (request_eq_some hthread) hpre hserve, hpost, hothers⟩

/-! ## What a sound pool has written -/

theorem ne_initial_of_pre {ids : List ℕ} {v : CallView} {change : Change} {records : List Record}
    (h : (contract ids).pre v (.update change records)) : ∀ records, change ≠ .initial records := by
  rintro _ rfl
  obtain ⟨-, -, -, h⟩ := h
  exact h

/-- What a call returns is in the log. -/
def Logged (p : StorePool) : Prop :=
  ∀ i call acquired, p.threads[i]? = some ⟨call, .pure acquired⟩ →
    (∀ a ∈ acquired, (i, Change.claim a) ∈ p.world.log) ∧
    ∀ checkpoint, call = .updateCheckpoint checkpoint →
      (i, Change.checkpoint checkpoint) ∈ p.world.log

theorem mem_log_of_mem_written {w : StoreWorld} {i : ℕ} {change : Change}
    (h : change ∈ (view w i).written) : (i, change) ∈ w.log := by
  obtain ⟨⟨j, change'⟩, hentry, rfl⟩ := List.mem_map.mp h
  obtain ⟨hmem, hj⟩ := List.mem_filter.mp hentry
  obtain rfl : j = i := of_decide_eq_true hj
  exact hmem

theorem logged_of_sound {ids : List ℕ} {I : StoreWorld → Prop} {p : StorePool}
    (h : p.Sound (contract ids) view Returns I) : p.Logged := by
  intro i call acquired hthread
  obtain ⟨hclaims, hcheckpoint⟩ := h.threads hthread acquired rfl
  exact ⟨fun a ha ↦ mem_log_of_mem_written (hclaims a ha),
    fun c hc ↦ mem_log_of_mem_written (hcheckpoint c hc)⟩

/-! ## A store of two partitions -/

/-- A new record, as the store is initialized with. -/
def newRecord (partitionId : ℕ) (etag : String) : Record where
  partitionId := partitionId
  ownerId := ""
  etag := etag
  lastModifiedTime := 0
  offset := ""
  sequenceNumber := 0

def someHub : HubId where
  fullyQualifiedNamespace := "contoso.servicebus.windows.net"
  eventhubName := "defender"
  consumerGroup := "$Default"

/-- A store of two partitions, before any call. -/
def twoPartitions : StorePool where
  world :=
    { records := [newRecord 0 "e0", newRecord 1 "e1"]
      issued := ["e0", "e1"]
      lastRead := fun _ ↦ none
      pending := fun _ ↦ none
      log := [] }
  threads := []

theorem twoPartitions_initial : twoPartitions.Initial := ⟨rfl, rfl, fun _ ↦ rfl⟩

end StorePool

end MsSecurity
