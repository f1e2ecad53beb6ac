import MsSecurity.EventHub.Turn
import MsSecurity.Transition.Relational
import MsSecurity.Transition.Settling

/-!
# How the consumers share the partitions

The consumers of an event hub take turns at claiming ownership, one at a time. While everybody
renews its ownerships in time, a partition changes hands only a bounded number of times, whichever
requests fail (`changes_le`), and in the end every consumer has its share (`shared_of_cycles`).
-/

namespace MsSecurity

open Allocation

/-! ## Turns -/

/-- `OwnershipManager.claim_ownership` of a consumer of all partitions, at a time. -/
def OwnershipManager.claimOwnership (manager : OwnershipManager) (now : ℚ)
    (allPartitionIds : List ℕ) (draws : Draws) : StoreProg (List ℕ) := do
  let ownershipList ← KVCheckpointStore.listOwnership manager.hub
  let toClaim := manager.balanceOwnership now ownershipList allPartitionIds draws
  if toClaim ≠ [] then
    let ownedPartitions ← KVCheckpointStore.claimOwnership toClaim
    return ownedPartitions.map fun a ↦ a.ownership.partitionId
  else return []

/-- A consumer takes its turn. The event hub lists its partitions in any order. -/
structure Turn (n : ℕ) where
  manager : OwnershipManager
  now : ℚ
  draws : Draws
  allPartitionIds : List ℕ
  perm : allPartitionIds.Perm (List.range n)

namespace Turn

variable {n : ℕ}

def prog (turn : Turn n) : StoreProg (List ℕ) :=
  turn.manager.claimOwnership turn.now turn.allPartitionIds turn.draws

/-- The state after the turn, whether it returns or raises. -/
def step (server : KVServer) (w : KVWorld) (turn : Turn n) : Option KVWorld :=
  some (finalState (turn.prog.exec server.serve) w)

/-- The turn is one of the consumers', at a time when no ownership has timed out. -/
def Undisturbed (consumers : Finset String) (w : KVWorld) (turn : Turn n) : Prop :=
  turn.manager.ownerId ∈ consumers ∧ ∀ records ∈ w.document, ∀ record ∈ records,
    record.ownerId ≠ "" → turn.now ≤ (record.lastModifiedTime : ℚ) + turn.manager.ownershipTimeout

instance (consumers : Finset String) (w : KVWorld) (turn : Turn n) :
    Decidable (turn.Undisturbed consumers w) :=
  inferInstanceAs (Decidable (turn.manager.ownerId ∈ consumers ∧ ∀ records ∈ w.document,
    ∀ record ∈ records, record.ownerId ≠ "" →
      turn.now ≤ (record.lastModifiedTime : ℚ) + turn.manager.ownershipTimeout))

end Turn

/-- The owners in the document. -/
def ownersOf (w : KVWorld) : List (ℕ × String) :=
  (w.document.getD []).map fun record ↦ (record.partitionId, record.ownerId)

/-- The owner of a partition, nobody if there is none. -/
def ownerIn (owners : List (ℕ × String)) (i : ℕ) : String := (owners.lookup i).getD ""

/-- Everything is owned by a consumer, and every consumer has an equal share, and none more than
that and what is left over. -/
def Shared (consumers : Finset String) (n : ℕ) (w : KVWorld) : Prop :=
  (∀ i < n, ownerIn (ownersOf w) i ∈ consumers) ∧
    ∀ ownerId ∈ consumers, n / consumers.card ≤ owned n (ownerIn (ownersOf w)) ownerId ∧
      owned n (ownerIn (ownersOf w)) ownerId ≤ n / consumers.card + n % consumers.card

/-! ## The owners of a store -/

section Owners

variable {server : KVServer} {n : ℕ} {w : KVWorld} {store : PartitionStore n}
  {acquired : List Acquired} {ownerId : String}

theorem ownersOf_eq (hw : server.Represents w (some store)) :
    ownersOf w = store.order.map fun i ↦ (i, store.owner i) := by
  rw [ownersOf, hw.1, Option.getD_some, PartitionStore.records, List.map_map]
  rfl

theorem ownerIn_ownersOf (hw : server.Represents w (some store)) {i : ℕ} (hi : i < n) :
    ownerIn (ownersOf w) i = store.owner i := by
  have hmem : i ∈ store.order := PartitionStore.mem_order_iff.mpr hi
  rw [ownerIn, ownersOf_eq hw]
  generalize store.order = order at hmem
  induction order with
  | nil => exact absurd hmem List.not_mem_nil
  | cons j order ih =>
    rw [List.map_cons, List.lookup_cons]
    by_cases hij : i = j
    · rw [hij, beq_self_eq_true]
      rfl
    · rw [beq_false_of_ne hij]
      exact ih ((List.mem_cons.mp hmem).resolve_left hij)

theorem owner_claim (howner : ∀ a ∈ acquired, a.claimed.ownerId = ownerId) (i : ℕ) :
    (store.claim acquired).owner i =
      if i ∈ acquired.map (fun a ↦ a.claimed.partitionId) then ownerId else store.owner i := by
  split_ifs with hmem
  · rw [PartitionStore.owner, PartitionStore.claim]
    dsimp only
    cases hfind : acquired.find? fun a ↦ a.claimed.partitionId = i with
    | some a => exact howner a (List.mem_of_find?_eq_some hfind)
    | none =>
      obtain ⟨a, ha, rfl⟩ := List.mem_map.mp hmem
      exact absurd (decide_eq_true rfl) (List.find?_eq_none.mp hfind a ha)
  · rw [PartitionStore.owner, PartitionStore.state_claim_of_not_mem hmem]
    rfl

end Owners

/-! ## What a turn does -/

section Turns

variable {server : KVServer} {n : ℕ} {w : KVWorld} {store : PartitionStore n} {turn : Turn n}
  {consumers : Finset String}

theorem Turn.Undisturbed.renewed (h : turn.Undisturbed consumers w)
    (hw : server.Represents w (some store)) : store.Renewed turn.manager turn.now := by
  intro i hi howned
  have horder : i ∈ store.order := PartitionStore.mem_order_iff.mpr hi
  have hmem := List.mem_map_of_mem (f := fun i ↦ (store.state i).record i) horder
  exact h.2 _ hw.1 _ hmem howned

/-- Some of what is balanced is claimed, and all of it if no request fails. -/
theorem Turn.ends_prog (hw : server.Represents w (some store))
    (hrenewed : store.Renewed turn.manager turn.now) (hownerId : turn.manager.ownerId ≠ "") :
    Ends (turn.prog.exec server.serve) w fun _ t ↦ ∃ acquired : List Acquired,
      server.Represents t (some (store.claim acquired)) ∧
      acquired.map Acquired.claimed <+: turn.manager.balanceOwnership turn.now
        (store.listOwnership turn.manager.hub) turn.allPartitionIds turn.draws ∧
      (¬server.MayFail → acquired.map Acquired.claimed = turn.manager.balanceOwnership turn.now
        (store.listOwnership turn.manager.hub) turn.allPartitionIds turn.draws) := by
  obtain ⟨ids, htaken, hids, howners⟩ := OwnershipManager.exists_taken turn.manager.hub turn.draws
    hrenewed hownerId turn.perm
  set toClaim := turn.manager.balanceOwnership turn.now (store.listOwnership turn.manager.hub)
    turn.allPartitionIds turn.draws
  have hnothing : store.claim [] = store := rfl
  refine Prog.ends_exec_bind_of (ends_listing hw) ?_ ?_
  · rintro ownershipList t ⟨ht, hlist⟩
    obtain rfl := Except.ok.inj (hlist.resolve_right fun ⟨_, e, he⟩ ↦ error_ne_ok he.symm)
    have hlisted : (store.records.map fun record : Record ↦ ({
        hub := turn.manager.hub
        partitionId := record.partitionId
        ownerId := record.ownerId
        etag := some record.etag
        lastModifiedTime := some record.lastModifiedTime } : Ownership)) =
          store.listOwnership turn.manager.hub := by
      rw [PartitionStore.records, List.map_map]
      rfl
    rw [hlisted]
    dsimp only
    split_ifs with hne
    · have hknown : ∀ o ∈ toClaim, o.partitionId < n := by
        intro o ho
        have hmem := hids ▸ List.mem_map_of_mem (f := Ownership.partitionId) ho
        rcases List.mem_append.mp hmem with hmem | hmem
        · exact PartitionStore.mem_order_iff.mp (List.mem_of_mem_filter hmem)
        · exact htaken.lt hmem
      have hnodup : (toClaim.map Ownership.partitionId).Nodup := by
        rw [hids]
        refine List.nodup_append.mpr ⟨PartitionStore.nodup_order.filter _, htaken.nodup, ?_⟩
        rintro i hi _ hi' rfl
        exact htaken.ne hownerId hi' (of_decide_eq_true (List.mem_filter.mp hi).2)
      have hwanted : store.wanted toClaim = toClaim :=
        List.filter_eq_self.mpr fun o ho ↦ decide_eq_true (howners o ho).2
      refine Prog.ends_exec_bind_of
        (KVCheckpointStore.ends_claimOwnership ht hnodup hknown) ?_ ?_
      · rintro owned u ⟨acquired, hclaimed, hreturned⟩
        rw [hwanted] at hclaimed hreturned
        refine ⟨acquired, hclaimed.represents, hclaimed.claimed, fun hfail ↦ ?_⟩
        exact (hreturned.resolve_right fun h ↦ hfail h.1).2
      · rintro e u ⟨acquired, hclaimed, hreturned⟩
        rw [hwanted] at hclaimed hreturned
        refine ⟨acquired, hclaimed.represents, hclaimed.claimed, fun hfail ↦ ?_⟩
        exact (hreturned.resolve_right fun h ↦ hfail h.1).2
    · rw [not_not] at hne
      exact ⟨[], hnothing ▸ ht, List.nil_prefix, fun _ ↦ hne.symm⟩
  · rintro e t ⟨ht, hlist⟩
    refine ⟨[], hnothing ▸ ht, List.nil_prefix, fun hfail ↦ ?_⟩
    exact absurd (hlist.resolve_left error_ne_ok).1 hfail

/-- The document is a store of the partitions, owned by consumers or by nobody. -/
def OwnedBy (server : KVServer) (consumers : Finset String) (n : ℕ) (w : KVWorld) : Prop :=
  ∃ store : PartitionStore n, server.Represents w (some store) ∧
    ∀ i < n, store.owner i ∈ insert "" consumers

theorem Turn.step_spec {t : KVWorld} (hw : server.Represents w (some store))
    (hok : turn.Undisturbed consumers w) (hempty : "" ∉ consumers)
    (hstep : turn.step server w = some t) : ∃ after : PartitionStore n,
      server.Represents t (some after) ∧ after.order = store.order ∧
      ((∀ i < n, after.owner i = store.owner i) ∨
        Moves n store.owner after.owner turn.manager.ownerId) ∧
      (¬server.MayFail → ((∀ i < n, after.owner i = store.owner i) ↔
        AtRest n store.owner turn.manager.ownerId)) := by
  have hownerId : turn.manager.ownerId ≠ "" := ne_of_mem_of_not_mem hok.1 hempty
  have hrenewed := hok.renewed hw
  obtain ⟨ids, htaken, hids, howners⟩ := OwnershipManager.exists_taken turn.manager.hub turn.draws
    hrenewed hownerId turn.perm
  have hends := Turn.ends_prog hw hrenewed hownerId
  set toClaim := turn.manager.balanceOwnership turn.now (store.listOwnership turn.manager.hub)
    turn.allPartitionIds turn.draws
  have hfinal : Ends (turn.prog.exec server.serve) w fun _ u ↦ u = t := by
    have hsome := Option.some.inj hstep
    exact Ends.intro (fun a u hu ↦ by rw [← hsome, finalState, hu])
      fun e u hu ↦ by rw [← hsome, finalState, hu]
  obtain ⟨-, _, ⟨acquired, ht, hclaimed, hall⟩, rfl⟩ := (hends.and hfinal).exists
  have hafter : ∀ i < n, (store.claim acquired).owner i =
      if i ∈ acquired.map (fun a ↦ a.claimed.partitionId) then turn.manager.ownerId
      else store.owner i := fun i _ ↦ owner_claim (fun a ha ↦
    (howners _ (hclaimed.subset (List.mem_map_of_mem ha))).1) i
  have hacquired : ∀ i ∈ acquired.map (fun a ↦ a.claimed.partitionId),
      store.owner i = turn.manager.ownerId ∨ i ∈ ids := by
    intro i hi
    obtain ⟨a, ha, rfl⟩ := List.mem_map.mp hi
    have hmem : a.claimed.partitionId ∈ toClaim.map Ownership.partitionId :=
      List.mem_map_of_mem (hclaimed.subset (List.mem_map_of_mem ha))
    rw [hids, List.mem_append] at hmem
    refine hmem.imp_left fun hself ↦ ?_
    exact of_decide_eq_true (List.mem_filter.mp hself).2
  refine ⟨store.claim acquired, ht, rfl, htaken.moves hownerId hacquired hafter, fun hfail ↦ ?_⟩
  refine htaken.same_iff hownerId hacquired (fun i hi ↦ ?_) hafter
  have hmem : i ∈ (acquired.map Acquired.claimed).map Ownership.partitionId := by
    rw [hall hfail, hids]
    exact List.mem_append_right _ hi
  rwa [List.map_map] at hmem

theorem ownersOf_eq_iff {t : KVWorld} {after : PartitionStore n}
    (hw : server.Represents w (some store)) (ht : server.Represents t (some after))
    (horder : after.order = store.order) :
    ownersOf t = ownersOf w ↔ ∀ i < n, after.owner i = store.owner i := by
  rw [ownersOf_eq hw, ownersOf_eq ht, horder, List.map_inj_left]
  refine forall_congr' fun i ↦ ?_
  rw [PartitionStore.mem_order_iff]
  exact imp_congr_right fun _ ↦ ⟨fun h ↦ (Prod.mk.inj h).2, fun h ↦ by rw [h]⟩

theorem calming_step (server : KVServer) (n : ℕ) (hempty : "" ∉ consumers) :
    Calming (Turn.step server) (Turn.Undisturbed (n := n) consumers)
      (OwnedBy server consumers n) ownersOf
      fun owners ↦ unrest (Finset.range n) consumers "" (ownerIn owners) where
  inv := by
    rintro w turn t ⟨store, hw, howners⟩ hok hstep
    obtain ⟨after, ht, -, hmoves, -⟩ := Turn.step_spec hw hok hempty hstep
    refine ⟨after, ht, fun i hi ↦ ?_⟩
    have hmine : turn.manager.ownerId ∈ insert "" consumers := Finset.mem_insert_of_mem hok.1
    rcases hmoves with hsame | hmoves
    · rw [hsame i hi]
      exact howners i hi
    · rcases hmoves.eq_or_eq hi with hsame | hmoved
      · rw [hsame]
        exact howners i hi
      · rw [hmoved]
        exact hmine
  lower := by
    rintro w turn t ⟨store, hw, howners⟩ hok hstep
    obtain ⟨after, ht, horder, hmoves, -⟩ := Turn.step_spec hw hok hempty hstep
    refine hmoves.imp (ownersOf_eq_iff hw ht horder).mpr fun hmoves ↦ ?_
    have hbefore : unrest (Finset.range n) consumers "" (ownerIn (ownersOf w)) =
        unrest (Finset.range n) consumers "" store.owner :=
      unrest_congr fun i hi ↦ ownerIn_ownersOf hw (Finset.mem_range.mp hi)
    have hafter : unrest (Finset.range n) consumers "" (ownerIn (ownersOf t)) =
        unrest (Finset.range n) consumers "" after.owner :=
      unrest_congr fun i hi ↦ ownerIn_ownersOf ht (Finset.mem_range.mp hi)
    rw [hbefore, hafter]
    exact hmoves.unrest_lt hok.1 hempty howners

theorem settling_step (hfail : ¬server.MayFail) (n : ℕ) (hempty : "" ∉ consumers) :
    Settling (Turn.step server) (Turn.Undisturbed (n := n) consumers)
      (OwnedBy server consumers n) ownersOf
      (fun owners ↦ unrest (Finset.range n) consumers "" (ownerIn owners))
      (fun turn ↦ turn.manager.ownerId) fun ownerId owners ↦ AtRest n (ownerIn owners) ownerId where
  toCalming := calming_step server n hempty
  same_iff := by
    rintro w turn t ⟨store, hw, howners⟩ hok hstep
    obtain ⟨after, ht, horder, -, hrest⟩ := Turn.step_spec hw hok hempty hstep
    rw [ownersOf_eq_iff hw ht horder, hrest hfail]
    exact atRest_congr fun i hi ↦ (ownerIn_ownersOf hw hi).symm

end Turns

/-! ## The shares -/

section Shares

variable {consumers : Finset String} {n : ℕ} {owner : ℕ → String}

theorem activeOwners_subset {ownerId : String} (hownerId : ownerId ∈ consumers)
    (howners : ∀ i < n, owner i ∈ insert "" consumers) :
    activeOwners n owner ownerId ⊆ consumers := by
  refine Finset.insert_subset hownerId fun other hother ↦ ?_
  obtain ⟨hne, hother⟩ := Finset.mem_erase.mp hother
  obtain ⟨i, hi, rfl⟩ := Finset.mem_image.mp hother
  exact (Finset.mem_insert.mp (howners i (Finset.mem_range.mp hi))).resolve_left hne

theorem owned_empty_of_atRest (hconsumers : consumers.Nonempty) (hempty : "" ∉ consumers)
    (howners : ∀ i < n, owner i ∈ insert "" consumers)
    (hrest : ∀ ownerId ∈ consumers, AtRest n owner ownerId) : owned n owner "" = 0 := by
  by_contra hfree
  have hsum : ∑ ownerId ∈ consumers, owned n owner ownerId + owned n owner "" ≤ n := by
    have hle := sum_holding_add_le (Finset.range n) owner hempty
    rwa [Finset.card_range] at hle
  have hmax : ∀ ownerId ∈ consumers, maxCount n owner ownerId ≤ owned n owner ownerId :=
    fun ownerId hmem ↦ (hrest ownerId hmem).1.resolve_left hfree
  have hn : 0 < n := Nat.pos_of_ne_zero fun hzero ↦ hfree (by subst hzero; rfl)
  -- everybody has a partition, so everybody counts everybody
  have hactive : ∀ ownerId ∈ consumers, activeOwners n owner ownerId = consumers := by
    intro ownerId hmem
    refine (activeOwners_subset hmem howners).antisymm fun other hother ↦ ?_
    have hpositive : 0 < owned n owner other := by
      refine Nat.lt_of_lt_of_le ?_ (hmax other hother)
      refine Nat.div_pos ?_ card_activeOwners_pos
      omega
    obtain ⟨i, hi, rfl⟩ := owned_pos_iff.mp hpositive
    exact Finset.mem_insert_of_mem (Finset.mem_erase.mpr ⟨ne_of_mem_of_not_mem hother hempty,
      Finset.mem_image_of_mem owner (Finset.mem_range.mpr hi)⟩)
  have hceil : n ≤ consumers.card * ((n + consumers.card - 1) / consumers.card) := by
    have hpositive := Finset.card_pos.mpr hconsumers
    have hdiv := Nat.div_add_mod (n + consumers.card - 1) consumers.card
    have hmod := Nat.mod_lt (n + consumers.card - 1) hpositive
    omega
  have hle : consumers.card * ((n + consumers.card - 1) / consumers.card) ≤
      ∑ ownerId ∈ consumers, owned n owner ownerId := by
    rw [← Finset.sum_const_nat fun _ _ ↦ rfl]
    refine Finset.sum_le_sum fun ownerId hmem ↦ ?_
    have hle := hmax ownerId hmem
    rwa [maxCount, hactive ownerId hmem] at hle
  omega

theorem shared_of_atRest {server : KVServer} {w : KVWorld} (hconsumers : consumers.Nonempty)
    (hempty : "" ∉ consumers) (hw : OwnedBy server consumers n w)
    (hrest : ∀ ownerId ∈ consumers, AtRest n (ownerIn (ownersOf w)) ownerId) :
    Shared consumers n w := by
  obtain ⟨store, hrepresents, hstored⟩ := hw
  have howners : ∀ i < n, ownerIn (ownersOf w) i ∈ insert "" consumers := by
    intro i hi
    rw [ownerIn_ownersOf hrepresents hi]
    exact hstored i hi
  have hnone := owned_empty_of_atRest hconsumers hempty howners hrest
  have hall : ∀ i < n, ownerIn (ownersOf w) i ∈ consumers := by
    obtain ⟨ownerId, hownerId⟩ := hconsumers
    exact fun i hi ↦ activeOwners_subset hownerId howners (mem_activeOwners_of_owned hnone hi)
  have hshare : ∀ ownerId ∈ consumers,
      n / consumers.card ≤ owned n (ownerIn (ownersOf w)) ownerId := fun ownerId hownerId ↦
    (Nat.div_le_div_left (Finset.card_le_card (activeOwners_subset hownerId howners))
      card_activeOwners_pos).trans (hrest ownerId hownerId).2
  refine ⟨hall, fun ownerId hownerId ↦ ⟨hshare ownerId hownerId, ?_⟩⟩
  have hle := holding_le_of_forall_le (fun i hi ↦ hall i (Finset.mem_range.mp hi)) hshare hownerId
  rw [Finset.card_range, Nat.mul_sub, Nat.mul_one, mul_comm] at hle
  have hdiv := Nat.div_add_mod n consumers.card
  have hfactor : n / consumers.card ≤ consumers.card * (n / consumers.card) :=
    Nat.le_mul_of_pos_left _ (Finset.card_pos.mpr hconsumers)
  change owned n (ownerIn (ownersOf w)) ownerId + _ ≤ n at hle
  omega

end Shares

/-! ## Runs -/

section Runs

variable {server : KVServer} {consumers : Finset String} {n : ℕ} {w t : KVWorld}

/-- **Partitions seldom change hands.** Whichever requests fail, at most `2 * n ^ 2` turns change
the owner of a partition, however long the consumers go on. -/
theorem changes_le (hempty : "" ∉ consumers) (hw : OwnedBy server consumers n w)
    {turns : List (Turn n)} (h : Run (Turn.step server) (Turn.Undisturbed consumers) w turns t) :
    changes (Turn.step server) ownersOf w turns ≤ 2 * n ^ 2 := by
  have hle := (calming_step server n hempty).changes_add_le hw h
  have hbound := unrest_le (Finset.range n) (ownerIn (ownersOf w)) hempty
  rw [Finset.card_range] at hbound
  exact (Nat.le_of_add_right_le hle).trans hbound

/-- **The load is balanced.** If no request fails, then after more than `2 * n ^ 2` cycles of turns
every consumer has its share, and nothing changes any more. -/
theorem shared_of_cycles (hfail : ¬server.MayFail) (hconsumers : consumers.Nonempty)
    (hempty : "" ∉ consumers) (hw : OwnedBy server consumers n w) {cycles : List (List (Turn n))}
    (h : Run (Turn.step server) (Turn.Undisturbed consumers) w cycles.flatten t)
    (hturns : ∀ cycle ∈ cycles, ∀ ownerId ∈ consumers,
      ∃ turn ∈ cycle, turn.manager.ownerId = ownerId)
    (hmany : 2 * n ^ 2 < cycles.length) :
    Shared consumers n t ∧ ∀ (turns : List (Turn n)) (u : KVWorld),
      Run (Turn.step server) (Turn.Undisturbed consumers) t turns u → ownersOf u = ownersOf t := by
  have hsettling := settling_step hfail n hempty
  have hbound := unrest_le (Finset.range n) (ownerIn (ownersOf w)) hempty
  rw [Finset.card_range] at hbound
  have hactors : ∀ {w : KVWorld} {turn : Turn n}, turn.Undisturbed consumers w →
      turn.manager.ownerId ∈ consumers := fun hok ↦ hok.1
  obtain ⟨ht, hrest⟩ := hsettling.atRest_of_cycles (· ∈ consumers) hactors hw h hturns
    (hbound.trans_lt hmany)
  refine ⟨shared_of_atRest hconsumers hempty ht hrest, fun turns u hlater ↦ ?_⟩
  exact hsettling.observe_eq_of_atRest (· ∈ consumers) ht hlater hactors hrest

end Runs

/-! ## Two consumers of two partitions -/

/-- Two partitions that nobody owns. -/
def twoFree : PartitionStore 2 where
  order := [0, 1]
  perm := List.Perm.refl _
  state i := ⟨"", toString i, 0, "", 0⟩

def twoFreeWorld : KVWorld := ⟨some twoFree.records, 2⟩

theorem ownedBy_twoFreeWorld : OwnedBy reliableServer {"a", "b"} 2 twoFreeWorld := by
  refine ⟨twoFree, ⟨rfl, fun i hi ↦ ⟨i, ?_, rfl⟩⟩, fun i _ ↦ Finset.mem_insert_self "" _⟩
  exact PartitionStore.mem_order_iff.mp hi

def turnOf (ownerId : String) (strategy : LoadBalancingStrategy) : Turn 2 :=
  ⟨⟨someHub, ownerId, 300, strategy⟩, 0, KVCheckpointStore.someDraws, [0, 1], List.Perm.refl _⟩

/-- The first turn takes both partitions, and the second one of them back. -/
def twoTurns : List (Turn 2) := [turnOf "a" .greedy, turnOf "b" .balanced]

theorem exists_run_twoTurns : ∃ t, Run (Turn.step reliableServer)
    (Turn.Undisturbed {"a", "b"}) twoFreeWorld (List.replicate 9 twoTurns).flatten t := by
  obtain ⟨t, ht⟩ := Option.isSome_iff_exists.mp (show (Run.exec (Run.guarded
    (Turn.step reliableServer) (Turn.Undisturbed {"a", "b"})) twoFreeWorld
    (List.replicate 9 twoTurns).flatten).isSome = true by decide +kernel)
  exact ⟨t, Run.of_exec_guarded _ ht⟩

theorem changes_le_twoTurns : changes (Turn.step reliableServer) ownersOf twoFreeWorld
    (List.replicate 9 twoTurns).flatten ≤ 2 * 2 ^ 2 := by
  obtain ⟨t, ht⟩ := exists_run_twoTurns
  exact changes_le (by decide) ownedBy_twoFreeWorld ht

theorem shared_of_cycles_twoTurns : ∃ t, Shared {"a", "b"} 2 t ∧ ∀ (turns : List (Turn 2)) u,
    Run (Turn.step reliableServer) (Turn.Undisturbed {"a", "b"}) t turns u →
      ownersOf u = ownersOf t := by
  obtain ⟨t, ht⟩ := exists_run_twoTurns
  refine ⟨t, shared_of_cycles KVCheckpointStore.not_mayFail_reliableServer (by decide) (by decide)
    ownedBy_twoFreeWorld ht (fun cycle hcycle ownerId hownerId ↦ ?_) (by decide)⟩
  obtain rfl := List.eq_of_mem_replicate hcycle
  rcases Finset.mem_insert.mp hownerId with rfl | hownerId
  · exact ⟨turnOf "a" .greedy, List.mem_cons_self, rfl⟩
  · rw [Finset.mem_singleton.mp hownerId]
    exact ⟨turnOf "b" .balanced, List.mem_cons_of_mem _ List.mem_cons_self, rfl⟩

end MsSecurity
