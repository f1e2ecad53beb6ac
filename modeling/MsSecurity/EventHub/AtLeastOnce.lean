import MsSecurity.EventHub.Consumer
import MsSecurity.Transition.Pool
import Mathlib.Data.Set.Basic
import Mathlib.Data.Set.BooleanAlgebra
import Mathlib.Order.CompletePartialOrder
import Mathlib.Order.SetNotation

/-!
# At-least-once processing

On one event hub, whatever calls interleave, fail or are killed, and however old the documents that
they write back, the offset stored for a partition is empty or every event up to it has been through
a completed `_select_elements` call (`atLeastOnce`). The events that were processed are the ghost
state: they only grow, so a stale document is as good as the newest.
-/

namespace MsSecurity

/-! ## The event hub -/

/-- An event hub: the events of each partition in order. An offset names one event of its
partition. -/
structure Hub where
  id : HubId
  event : ℕ → ℕ → HubEvent
  offset_injective : ∀ p, Function.Injective fun k ↦ (event p k).offset

namespace Hub

variable (hub : Hub)

/-- The events of a partition from a position on. -/
def batch (partitionId first size : ℕ) : List HubEvent :=
  (List.range' first size).map (hub.event partitionId)

variable {hub} {partitionId first size : ℕ}

theorem mem_batch_of_lt {k : ℕ} (hfirst : first ≤ k) (hk : k < first + size) :
    hub.event partitionId k ∈ hub.batch partitionId first size :=
  List.mem_map_of_mem (List.mem_range'_1.mpr ⟨hfirst, hk⟩)

theorem getLast?_batch {event : HubEvent}
    (h : (hub.batch partitionId first size).getLast? = some event) :
    ∃ k, hub.event partitionId k = event ∧ k + 1 = first + size := by
  rw [batch, List.getLast?_map, List.getLast?_range'] at h
  split_ifs at h with hsize
  · cases h
  · exact ⟨first + size - 1, Option.some.inj h, by omega⟩

end Hub

/-! ## Calls, world and steps -/

/-- The calls that the processors of an input make. -/
inductive ConsumerCall
  | construct (partitionIds : List ℕ)
  | deleteCheckpoint
  | listOwnership
  | claimOwnership (ownerships : List Ownership)
  | listCheckpoints
  /-- The callback for the `size` events of a partition from position `first` on. -/
  | onEventBatch (partitionId first size : ℕ)

/-- The program of a call; the result is what `list_checkpoints` returned. -/
def ConsumerCall.body (hub : Hub) : ConsumerCall → StoreProg (List Checkpoint)
  | .construct partitionIds => do
    KVCheckpointStore.init partitionIds
    return []
  | .deleteCheckpoint => do
    KVCheckpointStore.deleteCheckpoint
    return []
  | .listOwnership => do
    let _ ← KVCheckpointStore.listOwnership hub.id
    return []
  | .claimOwnership ownerships => do
    let _ ← KVCheckpointStore.claimOwnership ownerships
    return []
  | .listCheckpoints => KVCheckpointStore.listCheckpoints hub.id
  | .onEventBatch partitionId first size => do
    let eventBatch := hub.batch partitionId first size
    EventHubConsumerHandler.onEventBatch ⟨hub.id, partitionId, eventBatch.getLast?⟩ eventBatch
    return []

/-- The document, and the events for which a call of `_select_elements` has completed. -/
structure ConsumerWorld where
  document : Option (List Record)
  processed : List (ℕ × HubEvent)

/-- The processed events after a request. -/
def ConsumerWorld.processedAfter (w : ConsumerWorld) (outcome : Outcome) :
    Request → List (ℕ × HubEvent)
  | .selectElements partitionId event =>
    if outcome.fault.isNone then (partitionId, event) :: w.processed else w.processed
  | _ => w.processed

/-- How the world answers a request. -/
def ConsumerWorld.serve (w : ConsumerWorld) (_ : ℕ) (e : Request) (outcome : Outcome) :
    Option (Answer e × ConsumerWorld) :=
  some (outcome.answer w.document e,
    ⟨outcome.documentAfter w.document e, w.processedAfter outcome e⟩)

abbrev ConsumerPool := Pool ConsumerWorld ConsumerCall Request Answer PyError (List Checkpoint)

abbrev ConsumerAction := PoolAction ConsumerCall Outcome

namespace ConsumerPool

/-- One action of the processors. A processor that is killed has calls that never act again. -/
def step (hub : Hub) (p : ConsumerPool) (a : ConsumerAction) : Option ConsumerPool :=
  Pool.step (ConsumerCall.body hub) ConsumerWorld.serve p a

/-- The SDK may hand over events from this position on: the beginning, or after a checkpoint that
some call has listed, however long ago, or after a batch whose callback returned. -/
def DeliversFrom (hub : Hub) (p : ConsumerPool) (partitionId first : ℕ) : Prop :=
  first = 0 ∨
  (∃ (i : ℕ) (checkpoints : List Checkpoint),
    p.threads[i]? = some ⟨.listCheckpoints, .pure checkpoints⟩ ∧
    ∃ c ∈ checkpoints, c.partitionId = partitionId ∧ c.offset ≠ "" ∧
      ∃ k, (hub.event partitionId k).offset = c.offset ∧ first = k + 1) ∨
  ∃ (i first' size : ℕ) (r : List Checkpoint),
    p.threads[i]? = some ⟨.onEventBatch partitionId first' size, .pure r⟩ ∧
    first = first' + size

/-- The SDK delivers a partition's events in order and without gaps. -/
def Delivered (hub : Hub) (p : ConsumerPool) : ConsumerAction → Prop
  | .start (.onEventBatch partitionId first _) => p.DeliversFrom hub partitionId first
  | _ => True

/-- The offset of a progress is empty, or every event of the partition up to it is in `g`. -/
def UpTo (hub : Hub) (g : Set (ℕ × HubEvent)) (x : ℕ × String × ℤ) : Prop :=
  x.2.1 = "" ∨ ∃ k, (hub.event x.1 k).offset = x.2.1 ∧ ∀ j ≤ k, (x.1, hub.event x.1 j) ∈ g

/-- **At-least-once**: every stored offset is empty, or every event of its partition up to and
including it has been processed. -/
def AtLeastOnce (hub : Hub) (w : ConsumerWorld) : Prop :=
  ∀ records, w.document = some records → ∀ record ∈ records, record.offset = "" ∨
    ∃ k, (hub.event record.partitionId k).offset = record.offset ∧
      ∀ j ≤ k, (record.partitionId, hub.event record.partitionId j) ∈ w.processed

/-! ## What a call is obliged to -/

theorem UpTo.mono {hub : Hub} {g g' : Set (ℕ × HubEvent)} {x : ℕ × String × ℤ} (hle : g ≤ g')
    (h : UpTo hub g x) : UpTo hub g' x :=
  h.imp_right fun ⟨k, hk, hall⟩ ↦ ⟨k, hk, fun j hj ↦ hle (hall j hj)⟩

/-- The property of stored progress, over the set of processed events. -/
def progress (hub : Hub) : Progress (Set (ℕ × HubEvent)) where
  Good := UpTo hub
  May g c := UpTo hub g c.progress
  Processed g partitionId event := (partitionId, event) ∈ g
  Trusted _ := True
  Fits _ := True
  good_mono := UpTo.mono
  may_mono := UpTo.mono
  processed_mono := fun hle h ↦ hle h
  trusted_mono := fun _ _ ↦ trivial
  good_initial _ _ := Or.inl rfl

/-- What a call relies on is the same for all. -/
def view (w : ConsumerWorld) (_ : ℕ) : Set (ℕ × HubEvent) := { x | x ∈ w.processed }

/-- What a call has achieved when it returns: what it lists is processed up to there, and so is its
batch, with everything before it. -/
def Returns (hub : Hub) : ConsumerCall → Set (ℕ × HubEvent) →
    Except PyError (List Checkpoint) → Prop
  | .listCheckpoints => fun g r ↦ ∀ checkpoints, r = .ok checkpoints →
      ∀ c ∈ checkpoints, UpTo hub g c.progress
  | .onEventBatch partitionId first size => fun g r ↦ (∃ checkpoints, r = .ok checkpoints) →
      ∀ j < first + size, (partitionId, hub.event partitionId j) ∈ g
  | _ => fun _ _ ↦ True

theorem Returns.mono {hub : Hub} {call : ConsumerCall} {g g' : Set (ℕ × HubEvent)}
    {r : Except PyError (List Checkpoint)} (hle : g ≤ g') (h : Returns hub call g r) :
    Returns hub call g' r := by
  cases call with
  | listCheckpoints => exact fun checkpoints hr c hc ↦ (h checkpoints hr c hc).mono hle
  | onEventBatch partitionId first size => exact fun hr j hj ↦ hle (h hr j hj)
  | _ => trivial

private theorem wp_bind_nil {α : Type} {hub : Hub} {g : Set (ℕ × HubEvent)} {p : StoreProg α}
    (h : ∀ Q : Set (ℕ × HubEvent) → Except PyError α → Prop, (∀ g' x, Q g' x) →
      p.wp (progress hub).contract Q g) :
    (p >>= fun _ ↦ (pure [] : StoreProg (List Checkpoint))).wp (progress hub).contract
      (fun _ _ ↦ True) g := by
  rw [Prog.wp_bind]
  refine h _ fun g' x ↦ ?_
  cases x <;> trivial

/-- **Every call meets its obligation**; a batch does if everything before it has been processed. -/
theorem wp_body {hub : Hub} {g : Set (ℕ × HubEvent)} (call : ConsumerCall)
    (hstart : ∀ partitionId first size, call = .onEventBatch partitionId first size →
      ∀ j < first, (partitionId, hub.event partitionId j) ∈ g) :
    (call.body hub).wp (progress hub).contract (Returns hub call) g := by
  cases call with
  | construct partitionIds =>
    exact wp_bind_nil fun Q hQ ↦ Progress.wp_init trivial fun g' x _ ↦ hQ g' x
  | deleteCheckpoint => exact wp_bind_nil fun Q hQ ↦ Progress.wp_deleteCheckpoint hQ
  | listOwnership => exact wp_bind_nil fun Q hQ ↦ Progress.wp_listOwnership fun g' x _ ↦ hQ g' x
  | claimOwnership ownerships =>
    exact wp_bind_nil fun Q hQ ↦ Progress.wp_claimOwnership trivial fun g' x _ ↦ hQ g' x
  | listCheckpoints =>
    exact Progress.wp_listCheckpoints trivial fun g' x hx checkpoints hr c hc ↦
      (hx checkpoints hr c hc).2
  | onEventBatch partitionId first size =>
    have hbefore := hstart partitionId first size rfl
    -- the batch closes the gap between what came before it and its last event
    have hprefix : ∀ {g' : Set (ℕ × HubEvent)}, g ≤ g' →
        (∀ e ∈ hub.batch partitionId first size, (partitionId, e) ∈ g') →
        ∀ j < first + size, (partitionId, hub.event partitionId j) ∈ g' := by
      intro g' hle hall j hj
      rcases Nat.lt_or_ge j first with hlt | hge
      · exact hle (hbefore j hlt)
      · exact hall _ (Hub.mem_batch_of_lt hge hj)
    rw [ConsumerCall.body, Prog.wp_bind]
    refine Progress.wp_onEventBatch trivial rfl ?_ ?_
    · intro g' event hle hlast hall
      obtain ⟨k, rfl, hk⟩ := Hub.getLast?_batch hlast
      exact Or.inr ⟨k, rfl, fun j hj ↦ hprefix hle hall j (by omega)⟩
    · intro g' x hle hx
      cases x with
      | error e => exact fun ⟨_, h⟩ ↦ nomatch h
      | ok _ => exact fun _ ↦ hprefix hle (hx rfl)

/-! ## Runs -/

theorem subset_processedAfter (w : ConsumerWorld) (outcome : Outcome) (e : Request) :
    w.processed ⊆ w.processedAfter outcome e := by
  cases e with
  | selectElements partitionId event =>
    rw [ConsumerWorld.processedAfter]
    split_ifs
    · exact List.subset_cons_self _ _
    · exact List.Subset.refl _
  | _ => exact List.Subset.refl _

theorem serve_post {hub : Hub} {w w' : ConsumerWorld} {i : ℕ} {e : Request} {outcome : Outcome}
    {r : Answer e} (h : AtLeastOnce hub w) (hpre : (progress hub).contract.pre (view w i) e)
    (hserve : w.serve i e outcome = some (r, w')) :
    AtLeastOnce hub w' ∧ (progress hub).contract.post (view w i) e r (view w' i) ∧
      view w i ≤ view w' i := by
  obtain ⟨rfl, rfl⟩ := Prod.mk.inj (Option.some.inj hserve)
  have hle : view w i ≤ view ⟨outcome.documentAfter w.document e, w.processedAfter outcome e⟩ i :=
    fun x hx ↦ subset_processedAfter w outcome e hx
  refine ⟨fun records hrecords ↦ ?_, ?_, hle⟩
  · rcases Outcome.documentAfter_eq_some hrecords with hrecords | ⟨change, rfl⟩
    · intro record hrecord
      exact UpTo.mono (x := record.progress) hle (h records hrecords record hrecord)
    · exact Progress.good_of_pre hpre hle fun _ _ hmay ↦ UpTo.mono hle hmay
  · cases e with
    | get =>
      exact ⟨hle, fun records hr ↦
        ⟨fun _ ↦ trivial, fun _ ↦ h records (Outcome.eq_of_answer_get hr)⟩⟩
    | update change records => exact ⟨hle, fun _ ↦ trivial⟩
    | delete => exact hle
    | stamp => exact hle
    | selectElements partitionId event =>
      refine ⟨hle, fun hr ↦ ?_⟩
      -- only a call that completed returns
      change (partitionId, event) ∈ w.processedAfter outcome (.selectElements partitionId event)
      rw [ConsumerWorld.processedAfter, Outcome.unit_eq_ok_iff.mp hr]
      exact List.mem_cons_self

/-- What the processors have stored and returned so far. -/
abbrev Sound (hub : Hub) (p : ConsumerPool) : Prop :=
  Pool.Sound (progress hub).contract view (Returns hub) (AtLeastOnce hub) p

/-- What the SDK may deliver is preceded by processed events only. -/
theorem Sound.deliversFrom {hub : Hub} {p : ConsumerPool} (h : p.Sound hub) {partitionId first : ℕ}
    (hfirst : p.DeliversFrom hub partitionId first) :
    ∀ j < first, (partitionId, hub.event partitionId j) ∈ p.world.processed := by
  rcases hfirst with rfl | ⟨i, checkpoints, hthread, c, hc, rfl, hne, k, hk, rfl⟩ |
    ⟨i, first', size, r, hthread, rfl⟩
  · exact fun j hj ↦ absurd hj (Nat.not_lt_zero j)
  · have hlisted : UpTo hub (view p.world i) c.progress := h.threads hthread checkpoints rfl c hc
    rcases hlisted with hempty | ⟨k', hk', hall⟩
    · exact absurd hempty hne
    -- an offset names one event, so the listed progress ends at the event before the batch
    · obtain rfl : k' = k := hub.offset_injective _ (hk'.trans hk.symm)
      exact fun j hj ↦ hall j (Nat.le_of_lt_succ hj)
  · exact h.threads hthread ⟨r, rfl⟩

theorem Sound.step {hub : Hub} {p q : ConsumerPool} (h : p.Sound hub) {a : ConsumerAction}
    (hok : p.Delivered hub a) (hstep : p.step hub a = some q) : q.Sound hub := by
  cases a with
  | start call =>
    obtain rfl := Option.some.inj hstep
    refine Pool.Sound.start h (wp_body call fun partitionId first size hcall ↦ ?_)
    subst hcall
    exact h.deliversFrom hok
  | act i outcome =>
    refine Pool.Sound.act (progress hub).contract_stable Returns.mono h ?_ hstep
    intro call e next r w _ hpre hserve
    obtain ⟨hworld, hpost, hle⟩ := serve_post h.world hpre hserve
    exact ⟨hworld, hpost, fun _ _ ↦ hle⟩

/-- **At-least-once processing.** On one event hub, in every run in which the SDK delivers in order
and without gaps, from a checkpoint it was given or from the beginning, whatever fails, is killed or
interleaves: every stored offset is empty, or every event of its partition up to and including it
has been through a completed `_select_elements` call. -/
theorem atLeastOnce (hub : Hub) {s t : ConsumerPool} {as : List ConsumerAction}
    (hthreads : s.threads = []) (hdocument : s.world.document = none)
    (hrun : Run (step hub) (Delivered hub) s as t) : AtLeastOnce hub t.world := by
  have hinit : s.Sound hub := by
    refine ⟨fun records hrecords ↦ ?_, fun {i t} ht ↦ ?_⟩
    · rw [hdocument] at hrecords
      cases hrecords
    · rw [hthreads] at ht
      cases ht
  exact (hrun.invariant (fun h hok hstep ↦ Sound.step h hok hstep) hinit).world

/-! ## A run

A batch that raises, is delivered again and stored; and the next one, from the stored checkpoint. -/

/-- An event hub whose offsets are its positions. -/
def numberedHub : Hub where
  id := ⟨"contoso.servicebus.windows.net", "defender", "$Default"⟩
  event _ k := ⟨toString k, k⟩
  offset_injective _ := toString_nat_injective

/-- A request that goes well. -/
def done : Outcome := ⟨("e0", 0), none, true⟩

/-- A request that raises. -/
def failed : Outcome := ⟨("e0", 0), some .attributeError, false⟩

def untilListed : List ConsumerAction :=
  [.start (.construct [0]), .act 0 done, .act 0 done, .act 0 done,
    .start (.onEventBatch 0 0 2), .act 1 done, .act 1 failed,
    .start (.onEventBatch 0 0 2), .act 2 done, .act 2 done, .act 2 done, .act 2 done,
    .start .listCheckpoints, .act 3 done]

def afterListed : List ConsumerAction :=
  [.start (.onEventBatch 0 2 1), .act 4 done, .act 4 done, .act 4 done]

theorem atLeastOnce_redelivered :
    ∃ s t, Run.exec (step numberedHub) ⟨⟨none, []⟩, []⟩ untilListed = some s ∧
      Run.exec (step numberedHub) s afterListed = some t ∧
      t.world.document = some [⟨0, "", "e0", 0, "2", 2⟩] ∧ AtLeastOnce numberedHub t.world := by
  obtain ⟨s, t, hs, hlisted, ht, hdocument⟩ : ∃ s t,
      Run.exec (step numberedHub) ⟨⟨none, []⟩, []⟩ untilListed = some s ∧
      s.threads[3]? = some ⟨.listCheckpoints, .pure [⟨numberedHub.id, 0, "1", 1⟩]⟩ ∧
      Run.exec (step numberedHub) s afterListed = some t ∧
      t.world.document = some [⟨0, "", "e0", 0, "2", 2⟩] := ⟨_, _, rfl, rfl, rfl, rfl⟩
  refine ⟨s, t, hs, ht, hdocument, atLeastOnce numberedHub (s := ⟨⟨none, []⟩, []⟩) rfl rfl
    (Run.append (Run.of_exec _ hs ?_) (Run.of_exec _ ht ?_))⟩
  · -- the batches of this run start at the beginning, which needs nothing
    simp [Run.Along, untilListed, Delivered, DeliversFrom]
  · have hdelivers : s.DeliversFrom numberedHub 0 2 :=
      Or.inr (Or.inl ⟨3, _, hlisted, _, List.mem_cons_self, rfl, by decide, 1, rfl, rfl⟩)
    simp [Run.Along, afterListed, Delivered, hdelivers]

end ConsumerPool

end MsSecurity
