import MsSecurity.EventHub.EventProcessor

/-!
# What holds of an event processor

While an event processor receives, nothing is missing before what it has: below the link of a
consumer, every event has been processed, or is in the hands of the callback or in the buffer
(`EventProcessor.Sound.mem_of_lt`). Each step of its threads keeps this up, and with it that the
stored checkpoints are true (`Sound.receiveStep`, `Sound.balanceStep`); and the receive loop finds
the consumers that it looks up (`Sound.exists_lookup`).
-/

namespace MsSecurity

open ConsumerPool

/-! ## What holds of a processor -/

/-- The events that have been processed. -/
def known (w : ConsumerWorld) : Set (ℕ × HubEvent) := { x | x ∈ w.processed }

theorem advance_sound {α : Type} {hub : Hub} {w w' : ConsumerWorld} {outcome : Outcome}
    {rest rest' : StoreProg α} {Q : Set (ℕ × HubEvent) → Except PyError α → Prop}
    (hw : AtLeastOnce hub w) (hrest : rest.wp (progress hub).contract Q (known w))
    (hadvance : w.advance outcome rest = some (rest', w')) :
    AtLeastOnce hub w' ∧ rest'.wp (progress hub).contract Q (known w') ∧ known w ≤ known w' := by
  cases rest with
  | pure a => exact absurd hadvance.symm (Option.some_ne_none _)
  | throw e => exact absurd hadvance.symm (Option.some_ne_none _)
  | call e next =>
    rw [ConsumerWorld.advance] at hadvance
    obtain ⟨⟨r, w''⟩, hserve, heq⟩ := Option.map_eq_some_iff.mp hadvance
    obtain ⟨rfl, rfl⟩ := Prod.mk.inj heq
    obtain ⟨hworld, hpost, hle⟩ := serve_post hw hrest.1 hserve
    exact ⟨hworld, hrest.2 r _ hpost, hle⟩

namespace ReceiveState

/-- The events of a partition that a callback has. -/
def handled : ReceiveState → ℕ → List ℕ
  | .handling partitionId eventBatch _ _, p => if p = partitionId then eventBatch else []
  | _, _ => []

/-- The consumer of the partition hands over nothing any more. -/
def Abandons : ReceiveState → ℕ → Prop
  | .closing partitionId _, p => p = partitionId
  | .ended, _ => True
  | _, _ => False

/-- The partitions whose consumers the loop is going to look up. -/
def awaited : ReceiveState → List ℕ
  | .visiting round => round.pending
  | .connecting partitionId _ round => partitionId :: round.pending
  | .deciding partitionId round => partitionId :: round.pending
  | .handling partitionId _ _ round => partitionId :: round.pending
  | .closing partitionId round => partitionId :: round.pending
  | .closed _ round => round.pending
  | .releasing _ round => round.pending
  | .looping => []
  | .ended => []

theorem handled_eq_nil {state : ReceiveState} {p : ℕ} (h : p ∉ state.awaited) :
    state.handled p = [] := by
  cases state with
  | handling partitionId eventBatch rest round =>
    exact if_neg fun hp ↦ h (List.mem_cons.mpr (Or.inl hp))
  | _ => rfl

/-- No callback is running, and every consumer is in use. -/
def Quiet (state : ReceiveState) : Prop := ∀ p, ¬state.Abandons p ∧ state.handled p = []

/-- What is left of a callback processes its events, or raises. -/
def Sound (hub : Hub) (g : Set (ℕ × HubEvent)) : ReceiveState → Prop
  | .handling partitionId eventBatch rest _ => rest.wp (progress hub).contract
      (fun g' r ↦ r = .ok () → ∀ k ∈ eventBatch, (partitionId, hub.event partitionId k) ∈ g') g
  | .releasing rest _ => rest.wp (progress hub).contract (fun _ _ ↦ True) g
  | _ => True

theorem Sound.mono {hub : Hub} {g g' : Set (ℕ × HubEvent)} {state : ReceiveState}
    (h : state.Sound hub g) (hle : g ≤ g') : state.Sound hub g' := by
  have hstable := (progress hub).contract_stable
  cases state with
  | handling p eventBatch rest round =>
    exact hstable.wp_mono (fun hg hend hok k hk ↦ hg (hend hok k hk)) hle h
  | releasing rest round => exact hstable.wp_mono (fun _ _ ↦ trivial) hle h
  | _ => trivial

end ReceiveState

namespace BalanceState

/-- Everything is processed up to the checkpoints that are listed. -/
def Sound (hub : Hub) (g : Set (ℕ × HubEvent)) : BalanceState → Prop
  | .claiming rest => rest.wp (progress hub).contract (fun _ _ ↦ True) g
  | .listing _ _ rest => rest.wp (progress hub).contract
      (fun g' r ↦ ∀ checkpoints, r = .ok checkpoints →
        ∀ c ∈ checkpoints, UpTo hub g' c.progress) g
  | .creating _ _ checkpoints => ∀ c ∈ checkpoints, UpTo hub g c.progress
  | _ => True

theorem Sound.mono {hub : Hub} {g g' : Set (ℕ × HubEvent)} {state : BalanceState}
    (h : state.Sound hub g) (hle : g ≤ g') : state.Sound hub g' := by
  have hstable := (progress hub).contract_stable
  cases state with
  | claiming rest => exact hstable.wp_mono (fun _ _ ↦ trivial) hle h
  | listing newlyClaimed toCancel rest =>
    exact hstable.wp_mono (fun hg hend checkpoints hr c hc ↦ (hend checkpoints hr c hc).mono hg)
      hle h
  | creating newlyClaimed toCancel checkpoints => exact fun c hc ↦ (h c hc).mono hle
  | _ => trivial

end BalanceState

namespace EventProcessor

/-- Nothing is missing before what a receiver has, once its callback has returned. -/
def Complete (hub : Hub) (g : Set (ℕ × HubEvent)) (partitionId : ℕ) (handled : List ℕ)
    (consumer : EventHubConsumer) : Prop :=
  ∃ n, ∀ g', g ≤ g' → (∀ k ∈ handled, (partitionId, hub.event partitionId k) ∈ g') →
    consumer.GapFree hub g' partitionId n

/-- The invariant of a processor. -/
structure Sound (hub : Hub) (g : Set (ℕ × HubEvent)) (x : EventProcessor) : Prop where
  complete : ∀ {p consumer}, x.consumers.lookup p = some consumer → ¬x.receiving.Abandons p →
    Complete hub g p (x.receiving.handled p) consumer
  receiving : x.receiving.Sound hub g
  balancing : x.balancing.Sound hub g
  nodup : (x.consumers.map Prod.fst).Nodup
  nodup_awaited : x.receiving.awaited.Nodup
  awaited : ∀ p ∈ x.receiving.awaited, p ∈ x.consumers.map Prod.fst

section Sound

variable {hub : Hub} {g g' : Set (ℕ × HubEvent)} {x y : EventProcessor} {partitionId n : ℕ}
  {consumer : EventHubConsumer} {handled : List ℕ} {state : ReceiveState}

theorem Complete.mono (h : Complete hub g partitionId handled consumer) (hle : g ≤ g') :
    Complete hub g' partitionId handled consumer := by
  obtain ⟨n, hn⟩ := h
  exact ⟨n, fun g'' hg ↦ hn g'' (hle.trans hg)⟩

theorem complete_nil_iff : Complete hub g partitionId [] consumer ↔
    ∃ n, consumer.GapFree hub g partitionId n := by
  constructor
  · rintro ⟨n, hn⟩
    exact ⟨n, hn g le_rfl fun k hk ↦ absurd hk List.not_mem_nil⟩
  · rintro ⟨n, hn⟩
    exact ⟨n, fun g' hle _ ↦ hn.mono hle⟩

theorem Sound.mono (h : x.Sound hub g) (hle : g ≤ g') : x.Sound hub g' where
  complete hlookup hnot := (h.complete hlookup hnot).mono hle
  receiving := h.receiving.mono hle
  balancing := h.balancing.mono hle
  nodup := h.nodup
  nodup_awaited := h.nodup_awaited
  awaited := h.awaited

/-- The receive loop goes on with the consumers as they are. -/
theorem Sound.next (h : x.Sound hub g) (hstate : x.receiving = state)
    (hconsumers : y.consumers = x.consumers) (hbalancing : y.balancing = x.balancing)
    (hreceiving : y.receiving.Sound hub g)
    (hhandled : ∀ p, ¬y.receiving.Abandons p →
      ¬state.Abandons p ∧ y.receiving.handled p = state.handled p)
    (hawaited : y.receiving.awaited.Sublist state.awaited) : y.Sound hub g := by
  subst hstate
  refine ⟨fun {p consumer} hlookup hnot ↦ ?_, hreceiving, ?_, ?_, h.nodup_awaited.sublist hawaited,
    fun p hp ↦ ?_⟩
  · rw [hconsumers] at hlookup
    rw [(hhandled p hnot).2]
    exact h.complete hlookup (hhandled p hnot).1
  · rw [hbalancing]
    exact h.balancing
  · rw [hconsumers]
    exact h.nodup
  · rw [hconsumers]
    exact h.awaited p (hawaited.subset hp)

theorem Sound.set (h : x.Sound hub g) (hstate : x.receiving = state)
    (hconsumers : y.consumers = setKey x.consumers partitionId consumer)
    (hbalancing : y.balancing = x.balancing) (hreceiving : y.receiving.Sound hub g)
    (hcomplete : ¬y.receiving.Abandons partitionId →
      Complete hub g partitionId (y.receiving.handled partitionId) consumer)
    (hhandled : ∀ p, p ≠ partitionId → ¬y.receiving.Abandons p →
      ¬state.Abandons p ∧ y.receiving.handled p = state.handled p)
    (hawaited : y.receiving.awaited.Sublist state.awaited) : y.Sound hub g := by
  subst hstate
  refine ⟨fun {p consumer'} hlookup hnot ↦ ?_, hreceiving, ?_, ?_,
    h.nodup_awaited.sublist hawaited, fun p hp ↦ ?_⟩
  · rw [hconsumers, lookup_setKey] at hlookup
    split_ifs at hlookup with hp
    · subst hp
      obtain rfl := Option.some.inj hlookup
      exact hcomplete hnot
    · rw [(hhandled p hp hnot).2]
      exact h.complete hlookup (hhandled p hp hnot).1
  · rw [hbalancing]
    exact h.balancing
  · rw [hconsumers]
    exact nodup_setKey _ _ h.nodup
  · rw [hconsumers, mem_keys_setKey]
    exact Or.inr (h.awaited p (hawaited.subset hp))

theorem sound_start (ownerId : String) : (start hub.id ownerId).Sound hub g where
  complete hlookup _ := absurd hlookup.symm (Option.some_ne_none _)
  receiving := trivial
  balancing := trivial
  nodup := List.nodup_nil
  nodup_awaited := List.nodup_nil
  awaited _ hp := absurd hp List.not_mem_nil

theorem Sound.finished (h : x.Sound hub g) : x.finished.Sound hub g :=
  h.next rfl rfl rfl trivial (fun _ hnot ↦ absurd trivial hnot) (List.nil_sublist _)

/-! ## The receive loop -/

theorem Sound.exists_gapFree (h : x.Sound hub g) (hstate : x.receiving = state)
    (hquiet : state.Quiet) (hlookup : x.consumers.lookup partitionId = some consumer) :
    ∃ n, consumer.GapFree hub g partitionId n := by
  subst hstate
  have hcomplete := h.complete hlookup (hquiet partitionId).1
  rwa [(hquiet partitionId).2, complete_nil_iff] at hcomplete

theorem Sound.quiet (h : x.Sound hub g) (hstate : x.receiving = state) (hquiet : state.Quiet)
    (hconsumers : y.consumers = x.consumers) (hbalancing : y.balancing = x.balancing)
    (hreceiving : y.receiving.Sound hub g) (hhandled : ∀ p, y.receiving.handled p = [])
    (hawaited : y.receiving.awaited.Sublist state.awaited) : y.Sound hub g :=
  h.next hstate hconsumers hbalancing hreceiving
    (fun p _ ↦ ⟨(hquiet p).1, (hhandled p).trans (hquiet p).2.symm⟩) hawaited

theorem Sound.setQuiet (h : x.Sound hub g) (hstate : x.receiving = state) (hquiet : state.Quiet)
    (hconsumers : y.consumers = setKey x.consumers partitionId consumer)
    (hbalancing : y.balancing = x.balancing) (hreceiving : y.receiving.Sound hub g)
    (hhandled : ∀ p, y.receiving.handled p = [])
    (hgapFree : ∃ n, consumer.GapFree hub g partitionId n)
    (hawaited : y.receiving.awaited.Sublist state.awaited) : y.Sound hub g := by
  refine h.set hstate hconsumers hbalancing hreceiving (fun _ ↦ ?_)
    (fun p _ _ ↦ ⟨(hquiet p).1, (hhandled p).trans (hquiet p).2.symm⟩) hawaited
  rwa [hhandled partitionId, complete_nil_iff]

theorem Sound.beginPass {shutdown : Bool} (h : x.Sound hub g) (hstate : x.receiving = .looping) :
    Sound hub g { x with receiving := .visiting ⟨x.consumers.map Prod.fst, shutdown⟩ } where
  complete hlookup _ :=
    complete_nil_iff.mpr (h.exists_gapFree hstate (fun _ ↦ ⟨id, rfl⟩) hlookup)
  receiving := trivial
  balancing := h.balancing
  nodup := h.nodup
  nodup_awaited := h.nodup
  awaited _ hp := hp

theorem Sound.visitNext {round : Round} (h : x.Sound hub g) (hstate : x.receiving = .visiting round)
    (hnext : x.visitNext round = some y) : y.Sound hub g := by
  have hquiet : (ReceiveState.visiting round).Quiet := fun _ ↦ ⟨id, rfl⟩
  rw [EventProcessor.visitNext] at hnext
  split at hnext
  · obtain rfl := Option.some.inj hnext
    split_ifs
    · exact h.finished
    · exact h.quiet hstate hquiet rfl rfl trivial (fun _ ↦ rfl) (List.nil_sublist _)
  · rename_i partitionId pending hpending
    obtain ⟨consumer, -, rfl⟩ := Option.map_eq_some_iff.mp hnext
    have hawaited : (partitionId :: pending).Sublist round.pending := hpending ▸ List.Sublist.refl _
    rw [EventProcessor.visit]
    split_ifs
    · exact h.quiet hstate hquiet rfl rfl trivial (fun _ ↦ rfl) hawaited
    · exact h.quiet hstate hquiet rfl rfl trivial (fun _ ↦ rfl) hawaited
    · exact h.quiet hstate hquiet rfl rfl trivial (fun _ ↦ rfl) hawaited

theorem Sound.receiveOnce {retriedTimes : ℕ} {round : Round} {attempt : Attempt}
    (h : x.Sound hub g) (hstate : x.receiving = .connecting partitionId retriedTimes round)
    (hlookup : x.consumers.lookup partitionId = some consumer)
    (hopens : consumer.link = none → ∀ first, attempt.opens = some first →
      hub.StartsAt partitionId consumer.offset first) :
    (x.receiveOnce (hub.event partitionId) partitionId retriedTimes round attempt
      consumer).Sound hub g := by
  have hquiet : (ReceiveState.connecting partitionId retriedTimes round).Quiet :=
    fun _ ↦ ⟨id, rfl⟩
  obtain ⟨n, hn⟩ := h.exists_gapFree hstate hquiet hlookup
  have hworked := hn.work hopens
  rw [EventProcessor.receiveOnce]
  match attempt.failure with
  | none =>
    exact h.setQuiet hstate hquiet rfl rfl trivial (fun _ ↦ rfl) ⟨n, hworked⟩
      (List.Sublist.refl _)
  | some .unopened =>
    exact h.setQuiet hstate hquiet rfl rfl trivial (fun _ ↦ rfl) ⟨n, hworked⟩
      (List.sublist_cons_self _ _)
  | some (.retried closed) =>
    dsimp only
    split_ifs
    · exact h.setQuiet hstate hquiet rfl rfl trivial (fun _ ↦ rfl) ⟨n, hworked.reset closed⟩
        (List.Sublist.refl _)
    · exact h.setQuiet hstate hquiet rfl rfl trivial (fun _ ↦ rfl) ⟨n, hworked.reset closed⟩
        (List.Sublist.refl _)
  | some (.raised e) =>
    dsimp only
    split_ifs
    · exact h.setQuiet hstate hquiet rfl rfl trivial (fun _ ↦ rfl) ⟨n, hworked⟩
        (List.Sublist.refl _)
    · exact h.finished

/-- A callback stores the last of its events once all of them have been processed. -/
theorem wp_callback {context : PartitionContext} {eventBatch : List ℕ}
    (hlast : context.lastReceivedEvent = eventBatch.getLast?.map (hub.event context.partitionId))
    (hbefore : ∀ g', g ≤ g' → (∀ k ∈ eventBatch, (context.partitionId,
        hub.event context.partitionId k) ∈ g') → ∀ k ∈ eventBatch, ∀ j ≤ k,
          (context.partitionId, hub.event context.partitionId j) ∈ g') :
    (EventHubConsumerHandler.onEventBatch context
      (eventBatch.map (hub.event context.partitionId))).wp (progress hub).contract
        (fun g' r ↦ r = .ok () →
          ∀ k ∈ eventBatch, (context.partitionId, hub.event context.partitionId k) ∈ g') g := by
  have hall {g' : Set (ℕ × HubEvent)} (hevents : ∀ e ∈ eventBatch.map
      (hub.event context.partitionId), (context.partitionId, e) ∈ g') :
      ∀ k ∈ eventBatch, (context.partitionId, hub.event context.partitionId k) ∈ g' :=
    fun k hk ↦ hevents _ (List.mem_map_of_mem hk)
  refine Progress.wp_onEventBatch trivial (hlast.trans List.getLast?_map.symm) ?_ ?_
  · intro g' event hle hevent hprocessed
    rw [List.getLast?_map, Option.map_eq_some_iff] at hevent
    obtain ⟨k, hk, rfl⟩ := hevent
    exact Or.inr ⟨k, rfl, hbefore g' hle (hall hprocessed) k (List.mem_of_getLast? hk)⟩
  · exact fun g' r _ hprocessed hok ↦ hall (hprocessed hok)

theorem Sound.handOver {round : Round} {passed : Bool} (h : x.Sound hub g)
    (hstate : x.receiving = .deciding partitionId round)
    (hlookup : x.consumers.lookup partitionId = some consumer) :
    (x.handOver (hub.event partitionId) partitionId round passed consumer).Sound hub g := by
  have hquiet : (ReceiveState.deciding partitionId round).Quiet := fun _ ↦ ⟨id, rfl⟩
  obtain ⟨n, hn⟩ := h.exists_gapFree hstate hquiet hlookup
  rw [EventProcessor.handOver]
  split_ifs
  · refine h.set hstate rfl rfl ?_ (fun _ ↦ ?_) (fun p hp _ ↦ ⟨id, if_neg hp⟩)
      (List.Sublist.refl _)
    · -- the events below one that is handed over are below the end of the batch
      refine wp_callback rfl fun g' hle hprocessed k hk j hj ↦ ?_
      exact (hn.taken hle hprocessed).processed j (hj.trans_lt (lt_reach_of_mem hk))
    · rw [ReceiveState.handled, if_pos rfl]
      exact ⟨_, fun g' ↦ hn.taken⟩
  · exact h.quiet hstate hquiet rfl rfl trivial (fun _ ↦ rfl) (List.sublist_cons_self _ _)

theorem Complete.returned (h : Complete hub g partitionId handled consumer)
    (hall : ∀ k ∈ handled, (partitionId, hub.event partitionId k) ∈ g) :
    Complete hub g partitionId [] consumer := by
  obtain ⟨n, hn⟩ := h
  exact complete_nil_iff.mpr ⟨n, hn g le_rfl hall⟩

theorem Sound.returned {eventBatch : List ℕ} {round : Round} (h : x.Sound hub g)
    (hstate : x.receiving = .handling partitionId eventBatch (.pure ()) round) :
    Sound hub g { x with receiving := .visiting round } where
  complete := by
    intro p consumer hlookup _
    have hcomplete := h.complete hlookup (by rw [hstate]; exact id)
    have hreturned := h.receiving
    rw [hstate] at hcomplete hreturned
    rw [ReceiveState.handled] at hcomplete
    split_ifs at hcomplete with hp
    · subst hp
      exact hcomplete.returned (hreturned rfl)
    · exact hcomplete
  receiving := trivial
  balancing := h.balancing
  nodup := h.nodup
  nodup_awaited := by
    have hnodup := h.nodup_awaited
    rw [hstate] at hnodup
    exact (List.nodup_cons.mp hnodup).2
  awaited p hp := h.awaited p (by rw [hstate]; exact List.mem_cons_of_mem _ hp)

theorem Sound.raised {eventBatch : List ℕ} {round : Round} {e : PyError} (h : x.Sound hub g)
    (hstate : x.receiving = .handling partitionId eventBatch (.throw e) round) :
    Sound hub g { x with receiving := .closing partitionId round } :=
  h.next hstate rfl rfl trivial (fun _ hnot ↦ ⟨id, (if_neg hnot).symm⟩) (List.Sublist.refl _)

theorem Sound.endCallback {eventBatch : List ℕ} {rest : StoreProg Unit} {round : Round}
    (h : x.Sound hub g) (hstate : x.receiving = .handling partitionId eventBatch rest round)
    (hend : x.endCallback partitionId round rest = some y) : y.Sound hub g := by
  cases rest with
  | call e next => exact absurd hend.symm (Option.some_ne_none y)
  | pure _ =>
    obtain rfl := Option.some.inj hend
    exact h.returned hstate
  | throw e =>
    obtain rfl := Option.some.inj hend
    split_ifs
    · exact h.raised hstate
    · exact h.finished

theorem Sound.closeConsumer {round : Round} {fault : Option PyError} (h : x.Sound hub g)
    (hstate : x.receiving = .closing partitionId round) :
    (x.closeConsumer partitionId round fault).Sound hub g := by
  cases fault with
  | some _ => exact h.finished
  | none =>
    have hawaited := h.awaited
    have hnodup := h.nodup_awaited
    rw [hstate] at hawaited hnodup
    obtain ⟨hnotMem, hpending⟩ := List.nodup_cons.mp hnodup
    refine ⟨fun {p consumer} hlookup _ ↦ ?_, trivial, h.balancing, ?_, hpending, fun p hp ↦ ?_⟩
    · change (x.consumers.filter fun item ↦ decide (item.1 ≠ partitionId)).lookup p = _ at hlookup
      rw [lookup_filter fun key ↦ decide (key ≠ partitionId)] at hlookup
      split_ifs at hlookup with hp
      have hne : p ≠ partitionId := of_decide_eq_true hp
      have hcomplete := h.complete hlookup (by rw [hstate]; exact hne)
      rwa [hstate] at hcomplete
    · exact h.nodup.sublist (List.filter_sublist.map Prod.fst)
    · obtain ⟨item, hitem, rfl⟩ := List.mem_map.mp (hawaited p (List.mem_cons_of_mem _ hp))
      have hne : item.1 ≠ partitionId := fun heq ↦ hnotMem (heq ▸ hp)
      exact List.mem_map_of_mem (List.mem_filter.mpr ⟨hitem, decide_eq_true hne⟩)

theorem wp_releaseOwnership {manager : OwnershipManager} {ownedPartitions : List Ownership}
    {now : ℚ} : (manager.releaseOwnership ownedPartitions partitionId now).wp
      (progress hub).contract (fun _ _ ↦ True) g := by
  rw [OwnershipManager.releaseOwnership]
  split
  · trivial
  · rw [Prog.wp_bind]
    refine Progress.wp_claimOwnership trivial fun g' r _ ↦ ?_
    cases r <;> trivial

theorem Sound.beginRelease {round : Round} {now : ℚ} (h : x.Sound hub g)
    (hstate : x.receiving = .closed partitionId round) :
    (x.beginRelease partitionId round now).Sound hub g :=
  h.next hstate rfl rfl wp_releaseOwnership (fun _ _ ↦ ⟨id, rfl⟩) (List.Sublist.refl _)

theorem Sound.endRelease {rest : StoreProg Unit} {round : Round} (h : x.Sound hub g)
    (hstate : x.receiving = .releasing rest round) (hend : x.endRelease round rest = some y) :
    y.Sound hub g := by
  cases rest with
  | call e next => exact absurd hend.symm (Option.some_ne_none y)
  | pure _ =>
    obtain rfl := Option.some.inj hend
    exact h.next hstate rfl rfl trivial (fun _ _ ↦ ⟨id, rfl⟩) (List.Sublist.refl _)
  | throw e =>
    obtain rfl := Option.some.inj hend
    exact h.finished

/-! ## The load-balancing thread -/

/-- What the thread does without the consumers. -/
theorem Sound.balance (h : x.Sound hub g) (hconsumers : y.consumers = x.consumers)
    (hreceiving : y.receiving = x.receiving) (hbalancing : y.balancing.Sound hub g) :
    y.Sound hub g where
  complete := by
    intro p consumer hlookup hnot
    rw [hconsumers] at hlookup
    rw [hreceiving] at hnot ⊢
    exact h.complete hlookup hnot
  receiving := hreceiving ▸ h.receiving
  balancing := hbalancing
  nodup := hconsumers ▸ h.nodup
  nodup_awaited := hreceiving ▸ h.nodup_awaited
  awaited := by
    rw [hreceiving, hconsumers]
    exact h.awaited

theorem Sound.balanceFailed (h : x.Sound hub g) (e : PyError) :
    (x.balanceFailed e).Sound hub g := by
  refine h.balance rfl rfl ?_
  rw [EventProcessor.balanceFailed]
  dsimp only
  split_ifs <;> trivial

theorem wp_ownPartitions {manager : OwnershipManager} {now : ℚ} {partitionIds : List ℕ}
    {draws : Draws} : (manager.ownPartitions now partitionIds draws).wp (progress hub).contract
      (fun _ _ ↦ True) g := by
  rw [OwnershipManager.ownPartitions, Prog.wp_bind]
  refine Progress.wp_listOwnership fun g' r _ ↦ ?_
  cases r with
  | error e => trivial
  | ok ownershipList =>
    dsimp only
    split_ifs
    · exact Progress.wp_claimOwnership trivial fun _ _ _ ↦ trivial
    · trivial

theorem Sound.beginClaim {partitionIds : Except PyError (List ℕ)} {now : ℚ} {draws : Draws}
    (h : x.Sound hub g) : (x.beginClaim partitionIds now draws).Sound hub g := by
  cases partitionIds with
  | ok partitionIds =>
    rw [EventProcessor.beginClaim]
    split_ifs
    · exact h.balance rfl rfl wp_ownPartitions
    · exact h.balance rfl rfl wp_ownPartitions
  | error e =>
    rw [EventProcessor.beginClaim]
    split_ifs
    · exact h.balanceFailed e
    · exact h.balance rfl rfl wp_ownPartitions

theorem Sound.claimed {acquired : List Acquired} (h : x.Sound hub g) :
    (x.claimed acquired).Sound hub g := by
  refine h.balance rfl rfl ?_
  rw [EventProcessor.claimed]
  dsimp only
  split_ifs
  · exact Progress.wp_listCheckpoints trivial fun g' r hr checkpoints heq c hc ↦
      (hr checkpoints heq c hc).2
  · trivial

theorem Sound.endClaim {rest : StoreProg (List Acquired)} (h : x.Sound hub g)
    (hend : x.endClaim rest = some y) : y.Sound hub g := by
  cases rest with
  | call e next => exact absurd hend.symm (Option.some_ne_none y)
  | pure acquired =>
    obtain rfl := Option.some.inj hend
    exact h.claimed
  | throw e =>
    obtain rfl := Option.some.inj hend
    exact h.balanceFailed e

theorem Sound.endListing {newlyClaimed toCancel : List ℕ} {rest : StoreProg (List Checkpoint)}
    (h : x.Sound hub g) (hstate : x.balancing = .listing newlyClaimed toCancel rest)
    (hend : x.endListing newlyClaimed toCancel rest = some y) : y.Sound hub g := by
  cases rest with
  | call e next => exact absurd hend.symm (Option.some_ne_none y)
  | pure checkpoints =>
    have hlisted := h.balancing
    rw [hstate] at hlisted
    obtain rfl := Option.some.inj hend
    exact h.balance rfl rfl (hlisted checkpoints rfl)
  | throw e =>
    obtain rfl := Option.some.inj hend
    exact h.balanceFailed e

theorem Sound.createConsumer {checkpoints : List Checkpoint} (h : x.Sound hub g)
    (hcheckpoints : ∀ c ∈ checkpoints, UpTo hub g c.progress) :
    (x.createConsumer checkpoints partitionId).Sound hub g := by
  rw [EventProcessor.createConsumer]
  split_ifs with hmem
  · exact h
  · have hfound : ∀ c, (checkpoints.reverse.find? fun c ↦ decide (c.partitionId = partitionId)) =
        some c → c.partitionId = partitionId ∧ UpTo hub g c.progress := fun c hc ↦
      ⟨by simpa using List.find?_some hc,
        hcheckpoints c (List.mem_reverse.mp (List.mem_of_find?_eq_some hc))⟩
    refine h.set rfl rfl rfl h.receiving (fun _ ↦ ?_) (fun p _ hnot ↦ ⟨hnot, rfl⟩)
      (List.Sublist.refl _)
    change Complete hub g partitionId (x.receiving.handled partitionId) _
    rw [ReceiveState.handled_eq_nil fun hp ↦ hmem (h.awaited _ hp), complete_nil_iff]
    exact EventHubConsumer.GapFree.start hfound

theorem Sound.createNext {newlyClaimed toCancel : List ℕ} {checkpoints : List Checkpoint}
    {fault : Option PyError} (h : x.Sound hub g)
    (hcheckpoints : ∀ c ∈ checkpoints, UpTo hub g c.progress) :
    (x.createNext newlyClaimed toCancel checkpoints partitionId fault).Sound hub g := by
  cases fault with
  | some e => exact h.balanceFailed e
  | none => exact (h.createConsumer hcheckpoints).balance rfl rfl hcheckpoints

theorem Complete.cancelled (h : Complete hub g partitionId handled consumer) :
    Complete hub g partitionId handled { consumer with stop := true } := by
  obtain ⟨n, hn⟩ := h
  exact ⟨n, fun g' hle hall ↦ (hn g' hle hall).cancelled⟩

theorem Sound.cancelConsumer (h : x.Sound hub g) :
    (x.cancelConsumer partitionId).Sound hub g := by
  rw [EventProcessor.cancelConsumer]
  cases hlookup : x.consumers.lookup partitionId with
  | none => exact h
  | some consumer =>
    exact h.set rfl rfl rfl h.receiving (fun hnot ↦ (h.complete hlookup hnot).cancelled)
      (fun p _ hnot ↦ ⟨hnot, rfl⟩) (List.Sublist.refl _)

/-! ## One step of a processor -/

variable {w w' : ConsumerWorld}

theorem Sound.receiveStep {choice : ReceiveChoice} (hw : AtLeastOnce hub w)
    (h : x.Sound hub (known w)) (hserves : x.Serves hub choice)
    (hstep : x.receiveStep hub w x.receiving choice = some (y, w')) :
    AtLeastOnce hub w' ∧ y.Sound hub (known w') ∧ known w ≤ known w' := by
  have hquiet {z : EventProcessor} (hz : z.Sound hub (known w)) (heq : (z, w) = (y, w')) :
      AtLeastOnce hub w' ∧ y.Sound hub (known w') ∧ known w ≤ known w' := by
    obtain ⟨rfl, rfl⟩ := Prod.mk.inj heq
    exact ⟨hw, hz, le_rfl⟩
  generalize hstate : x.receiving = state at hstep
  cases choice with
  | go =>
    cases state with
    | looping => exact hquiet (h.beginPass hstate) (Option.some.inj hstep)
    | visiting round =>
      obtain ⟨z, hz, heq⟩ := Option.map_eq_some_iff.mp hstep
      exact hquiet (h.visitNext hstate hz) heq
    | handling partitionId eventBatch rest round =>
      obtain ⟨z, hz, heq⟩ := Option.map_eq_some_iff.mp hstep
      exact hquiet (h.endCallback hstate hz) heq
    | releasing rest round =>
      obtain ⟨z, hz, heq⟩ := Option.map_eq_some_iff.mp hstep
      exact hquiet (h.endRelease hstate hz) heq
    | _ => exact absurd hstep.symm (Option.some_ne_none _)
  | attempt attempt =>
    cases state with
    | connecting partitionId retriedTimes round =>
      obtain ⟨consumer, hlookup, heq⟩ := Option.map_eq_some_iff.mp hstep
      have hconnecting : (partitionId, consumer) ∈ x.connecting := by
        rw [EventProcessor.connecting, hstate, Option.mem_def]
        exact congrArg (Option.map (partitionId, ·)) hlookup
      exact hquiet (h.receiveOnce hstate hlookup (hserves _ hconnecting)) heq
    | _ => exact absurd hstep.symm (Option.some_ne_none _)
  | clock passed =>
    cases state with
    | deciding partitionId round =>
      obtain ⟨consumer, hlookup, heq⟩ := Option.map_eq_some_iff.mp hstep
      exact hquiet (h.handOver hstate hlookup) heq
    | _ => exact absurd hstep.symm (Option.some_ne_none _)
  | answer outcome =>
    cases state with
    | handling partitionId eventBatch rest round =>
      have hrest := h.receiving
      rw [hstate] at hrest
      obtain ⟨⟨rest', w''⟩, hadvance, heq⟩ := Option.map_eq_some_iff.mp hstep
      obtain ⟨rfl, rfl⟩ := Prod.mk.inj heq
      obtain ⟨hworld, hrest', hle⟩ := advance_sound hw hrest hadvance
      exact ⟨hworld, (h.mono hle).next hstate rfl rfl hrest' (fun _ _ ↦ ⟨id, rfl⟩)
        (List.Sublist.refl _), hle⟩
    | releasing rest round =>
      have hrest := h.receiving
      rw [hstate] at hrest
      obtain ⟨⟨rest', w''⟩, hadvance, heq⟩ := Option.map_eq_some_iff.mp hstep
      obtain ⟨rfl, rfl⟩ := Prod.mk.inj heq
      obtain ⟨hworld, hrest', hle⟩ := advance_sound hw hrest hadvance
      exact ⟨hworld, (h.mono hle).next hstate rfl rfl hrest' (fun _ _ ↦ ⟨id, rfl⟩)
        (List.Sublist.refl _), hle⟩
    | _ => exact absurd hstep.symm (Option.some_ne_none _)
  | close fault =>
    cases state with
    | closing partitionId round => exact hquiet (h.closeConsumer hstate) (Option.some.inj hstep)
    | _ => exact absurd hstep.symm (Option.some_ne_none _)
  | release now =>
    cases state with
    | closed partitionId round => exact hquiet (h.beginRelease hstate) (Option.some.inj hstep)
    | _ => exact absurd hstep.symm (Option.some_ne_none _)

theorem Sound.balanceStep {choice : BalanceChoice} (hw : AtLeastOnce hub w)
    (h : x.Sound hub (known w)) (hstep : x.balanceStep w x.balancing choice = some (y, w')) :
    AtLeastOnce hub w' ∧ y.Sound hub (known w') ∧ known w ≤ known w' := by
  have hquiet {z : EventProcessor} (hz : z.Sound hub (known w)) (heq : (z, w) = (y, w')) :
      AtLeastOnce hub w' ∧ y.Sound hub (known w') ∧ known w ≤ known w' := by
    obtain ⟨rfl, rfl⟩ := Prod.mk.inj heq
    exact ⟨hw, hz, le_rfl⟩
  have hbalancing := h.balancing
  generalize hstate : x.balancing = state at hstep
  rw [hstate] at hbalancing
  cases choice with
  | go =>
    cases state with
    | looping =>
      rw [EventProcessor.balanceStep] at hstep
      split_ifs at hstep
      refine hquiet ?_ (Option.some.inj hstep)
      exact h.balance rfl rfl trivial
    | claiming rest =>
      obtain ⟨z, hz, heq⟩ := Option.map_eq_some_iff.mp hstep
      exact hquiet (h.endClaim hz) heq
    | listing newlyClaimed toCancel rest =>
      obtain ⟨z, hz, heq⟩ := Option.map_eq_some_iff.mp hstep
      exact hquiet (h.endListing hstate hz) heq
    | creating newlyClaimed toCancel checkpoints =>
      rw [EventProcessor.balanceStep] at hstep
      split_ifs at hstep
      refine hquiet ?_ (Option.some.inj hstep)
      exact h.balance rfl rfl trivial
    | cancelling toCancel =>
      rw [EventProcessor.balanceStep] at hstep
      split_ifs at hstep
      refine hquiet ?_ (Option.some.inj hstep)
      exact h.balance rfl rfl trivial
    | ended => exact absurd hstep.symm (Option.some_ne_none _)
  | claim partitionIds now draws =>
    cases state with
    | looping =>
      rw [EventProcessor.balanceStep] at hstep
      split_ifs at hstep
      exact hquiet h.beginClaim (Option.some.inj hstep)
    | _ => exact absurd hstep.symm (Option.some_ne_none _)
  | answer outcome =>
    cases state with
    | claiming rest =>
      obtain ⟨⟨rest', w''⟩, hadvance, heq⟩ := Option.map_eq_some_iff.mp hstep
      obtain ⟨rfl, rfl⟩ := Prod.mk.inj heq
      obtain ⟨hworld, hrest, hle⟩ := advance_sound hw hbalancing hadvance
      exact ⟨hworld, (h.mono hle).balance rfl rfl hrest, hle⟩
    | listing newlyClaimed toCancel rest =>
      obtain ⟨⟨rest', w''⟩, hadvance, heq⟩ := Option.map_eq_some_iff.mp hstep
      obtain ⟨rfl, rfl⟩ := Prod.mk.inj heq
      obtain ⟨hworld, hrest, hle⟩ := advance_sound hw hbalancing hadvance
      exact ⟨hworld, (h.mono hle).balance rfl rfl hrest, hle⟩
    | _ => exact absurd hstep.symm (Option.some_ne_none _)
  | create partitionId fault =>
    cases state with
    | creating newlyClaimed toCancel checkpoints =>
      rw [EventProcessor.balanceStep] at hstep
      split_ifs at hstep
      exact hquiet (h.createNext hbalancing) (Option.some.inj hstep)
    | _ => exact absurd hstep.symm (Option.some_ne_none _)
  | cancel partitionId =>
    cases state with
    | cancelling toCancel =>
      rw [EventProcessor.balanceStep] at hstep
      split_ifs at hstep
      refine hquiet ?_ (Option.some.inj hstep)
      exact h.cancelConsumer.balance rfl rfl trivial
    | _ => exact absurd hstep.symm (Option.some_ne_none _)

/-! ## What it is for -/

/-- Below the link of a consumer, no event is skipped. -/
theorem Sound.mem_of_lt (h : x.Sound hub g)
    (hlookup : x.consumers.lookup partitionId = some consumer)
    (hnot : ¬x.receiving.Abandons partitionId) {first j : ℕ} (hlink : consumer.link = some first)
    (hj : j < first) : (partitionId, hub.event partitionId j) ∈ g ∨
      j ∈ x.receiving.handled partitionId ∨ j ∈ consumer.messageBuffer := by
  obtain ⟨n, hn⟩ := h.complete hlookup hnot
  -- as if the events of the callback had been processed
  have hgapFree := hn (g ∪ { e | ∃ k ∈ x.receiving.handled partitionId,
    (partitionId, hub.event partitionId k) = e }) Set.subset_union_left
      fun k hk ↦ Or.inr ⟨k, hk, rfl⟩
  rcases hgapFree.mem_of_lt hlink hj with (hmem | ⟨k, hk, heq⟩) | hbuffer
  · exact Or.inl hmem
  · have hoffset : (hub.event partitionId k).offset = (hub.event partitionId j).offset :=
      congrArg (fun e ↦ e.2.offset) heq
    obtain rfl := hub.offset_injective partitionId hoffset
    exact Or.inr (Or.inl hk)
  · exact Or.inr (Or.inr hbuffer)

theorem Sound.exists_lookup (h : x.Sound hub g) (hmem : partitionId ∈ x.receiving.awaited) :
    ∃ consumer, x.consumers.lookup partitionId = some consumer :=
  Option.ne_none_iff_exists'.mp fun hnone ↦
    lookup_eq_none_iff_notMem.mp hnone (h.awaited partitionId hmem)

end Sound

end EventProcessor

end MsSecurity
