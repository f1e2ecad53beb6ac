import MsSecurity.EventHub.Balance
import MsSecurity.Transition.Allocation

/-!
# A turn of the ownership manager

A consumer lists the ownerships, and balances them against its own. Nobody sees more than the list,
and consumers that own nothing are not in it. What it claims are the partitions it owns, and beyond
these nothing, partitions that nobody owns, or one partition of an owner that has at least two more
(`OwnershipManager.exists_taken`).
-/

namespace MsSecurity

open Allocation

/-! ## Ownerships by owner -/

/-- The groups of a list of ownerships, one for each owner. -/
structure GroupedBy (byOwner : Dict (List Ownership)) (ownerships : List Ownership)
    (ownerIds : Finset String) : Prop where
  nodup : (byOwner.map Prod.fst).Nodup
  mem_iff : ∀ ownerId, ownerId ∈ byOwner.map Prod.fst ↔ ownerId ∈ ownerIds
  group : ∀ entry ∈ byOwner, entry.2 = ownerships.filter fun o ↦ o.ownerId = entry.1
  owner : ∀ ownership ∈ ownerships, ownership.ownerId ∈ ownerIds

section Groups

variable {byOwner : Dict (List Ownership)} {ownerships : List Ownership} {ownerIds : Finset String}

theorem map_fst_appendByOwner (ownership : Ownership) (byOwner : Dict (List Ownership)) :
    (appendByOwner ownership byOwner).map Prod.fst =
      if ownership.ownerId ∈ byOwner.map Prod.fst then byOwner.map Prod.fst
      else byOwner.map Prod.fst ++ [ownership.ownerId] := by
  induction byOwner with
  | nil => rfl
  | cons entry byOwner ih =>
    obtain ⟨ownerId, group⟩ := entry
    rw [appendByOwner]
    by_cases h : ownerId = ownership.ownerId
    · rw [if_pos h, List.map_cons, List.map_cons, if_pos (List.mem_cons.mpr (Or.inl h.symm))]
    · rw [if_neg h, List.map_cons, List.map_cons, ih]
      dsimp only
      by_cases hmem : ownership.ownerId ∈ byOwner.map Prod.fst
      · rw [if_pos hmem, if_pos (List.mem_cons_of_mem _ hmem)]
      · rw [if_neg hmem, if_neg (List.not_mem_cons_of_ne_of_not_mem (Ne.symm h) hmem)]
        rfl

theorem mem_appendByOwner {ownership : Ownership} {entry : String × List Ownership}
    (hnodup : (byOwner.map Prod.fst).Nodup) (h : entry ∈ appendByOwner ownership byOwner) :
    entry.1 ≠ ownership.ownerId ∧ entry ∈ byOwner ∨
      entry.1 = ownership.ownerId ∧ ((∃ group, (entry.1, group) ∈ byOwner ∧
          entry.2 = group ++ [ownership]) ∨
        ownership.ownerId ∉ byOwner.map Prod.fst ∧ entry.2 = [ownership]) := by
  induction byOwner with
  | nil =>
    obtain rfl := List.mem_singleton.mp h
    exact Or.inr ⟨rfl, Or.inr ⟨List.not_mem_nil, rfl⟩⟩
  | cons first byOwner ih =>
    obtain ⟨ownerId, group⟩ := first
    rw [List.map_cons, List.nodup_cons] at hnodup
    rw [appendByOwner] at h
    split_ifs at h with heq
    · subst heq
      rcases List.mem_cons.mp h with rfl | hmem
      · exact Or.inr ⟨rfl, Or.inl ⟨group, List.mem_cons_self, rfl⟩⟩
      · refine Or.inl ⟨fun hsame ↦ hnodup.1 ?_, List.mem_cons_of_mem _ hmem⟩
        exact List.mem_map.mpr ⟨entry, hmem, hsame⟩
    · rcases List.mem_cons.mp h with rfl | hmem
      · exact Or.inl ⟨heq, List.mem_cons_self⟩
      · rcases ih hnodup.2 hmem with ⟨hne, hmem⟩ | ⟨hsame, ⟨group', hmem, hgroup⟩ | ⟨hnot, hgroup⟩⟩
        · exact Or.inl ⟨hne, List.mem_cons_of_mem _ hmem⟩
        · exact Or.inr ⟨hsame, Or.inl ⟨group', List.mem_cons_of_mem _ hmem, hgroup⟩⟩
        · refine Or.inr ⟨hsame, Or.inr ⟨?_, hgroup⟩⟩
          exact List.not_mem_cons_of_ne_of_not_mem (Ne.symm heq) hnot

theorem GroupedBy.append (h : GroupedBy byOwner ownerships ownerIds) (ownership : Ownership) :
    GroupedBy (appendByOwner ownership byOwner) (ownerships ++ [ownership])
      (insert ownership.ownerId ownerIds) where
  nodup := by
    rw [map_fst_appendByOwner]
    split_ifs with hmem
    · exact h.nodup
    · exact List.nodup_append.mpr ⟨h.nodup, List.nodup_singleton _, fun a ha b hb ↦ by
        rintro rfl
        exact hmem (List.mem_singleton.mp hb ▸ ha)⟩
  mem_iff ownerId := by
    rw [map_fst_appendByOwner, Finset.mem_insert, ← h.mem_iff]
    split_ifs with hmem
    · exact ⟨Or.inr, fun hor ↦ hor.elim (fun heq ↦ heq ▸ hmem) id⟩
    · rw [List.mem_append, List.mem_singleton, or_comm]
  group entry hentry := by
    rw [List.filter_append]
    rcases mem_appendByOwner h.nodup hentry with ⟨hne, hmem⟩ | ⟨hsame, ⟨group, hmem, hgroup⟩ | hnew⟩
    · rw [h.group entry hmem, List.filter_cons_of_neg, List.filter_nil, List.append_nil]
      exact fun hsame ↦ hne (of_decide_eq_true hsame).symm
    · have hgroup' : group = ownerships.filter fun o ↦ o.ownerId = entry.1 := h.group _ hmem
      rw [hgroup, hgroup', List.filter_cons_of_pos, List.filter_nil]
      exact decide_eq_true hsame.symm
    · have hnil : ownerships.filter (fun o ↦ o.ownerId = entry.1) = [] := by
        refine List.filter_eq_nil_iff.mpr fun o ho howner ↦ hnew.1 ?_
        rw [h.mem_iff, ← hsame, ← of_decide_eq_true howner]
        exact h.owner o ho
      rw [hnew.2, hnil, List.filter_cons_of_pos, List.filter_nil, List.nil_append]
      exact decide_eq_true hsame.symm
  owner o ho := by
    rcases List.mem_append.mp ho with ho | ho
    · exact Finset.mem_insert_of_mem (h.owner o ho)
    · exact List.mem_singleton.mp ho ▸ Finset.mem_insert_self _ _

theorem groupedBy_foldl (listed : List Ownership) (h : GroupedBy byOwner ownerships ownerIds) :
    GroupedBy (listed.foldl (fun byOwner o ↦ appendByOwner o byOwner) byOwner)
      (ownerships ++ listed) (ownerIds ∪ (listed.map Ownership.ownerId).toFinset) := by
  induction listed generalizing byOwner ownerships ownerIds with
  | nil => simpa using h
  | cons o listed ih =>
    have hrest := ih (h.append o)
    rw [List.append_assoc, List.singleton_append, Finset.insert_union] at hrest
    rw [List.foldl_cons, List.map_cons, List.toFinset_cons, Finset.union_insert]
    exact hrest

theorem GroupedBy.touchOwner (h : GroupedBy byOwner ownerships ownerIds) (ownerId : String) :
    GroupedBy (touchOwner ownerId byOwner) ownerships (insert ownerId ownerIds) := by
  have hget : (Dict.get byOwner ownerId).isSome = true ↔ ownerId ∈ ownerIds := by
    rw [← h.mem_iff, Dict.get, List.lookup_isSome_iff]
    simp [List.mem_map]
  rw [MsSecurity.touchOwner]
  split_ifs with hsome
  · rw [Finset.insert_eq_of_mem (hget.mp hsome)]
    exact h
  · have hnot : ownerId ∉ ownerIds := fun hmem ↦ hsome (hget.mpr hmem)
    refine ⟨?_, fun other ↦ ?_, fun entry hentry ↦ ?_, fun o ho ↦ ?_⟩
    · rw [List.map_append, List.nodup_append]
      refine ⟨h.nodup, List.nodup_singleton _, fun a ha b hb ↦ ?_⟩
      rintro rfl
      obtain rfl := List.mem_singleton.mp hb
      exact hnot ((h.mem_iff _).mp ha)
    · rw [List.map_append, List.mem_append, h.mem_iff, Finset.mem_insert, or_comm]
      exact or_congr_left List.mem_singleton
    · rcases List.mem_append.mp hentry with hentry | hentry
      · exact h.group entry hentry
      · obtain rfl := List.mem_singleton.mp hentry
        refine (List.filter_eq_nil_iff.mpr fun o ho howner ↦ hnot ?_).symm
        have hmem := h.owner o ho
        rwa [of_decide_eq_true howner] at hmem
    · exact Finset.mem_insert_of_mem (h.owner o ho)

theorem GroupedBy.getD_get (h : GroupedBy byOwner ownerships ownerIds) (ownerId : String) :
    (Dict.get byOwner ownerId).getD [] = ownerships.filter fun o ↦ o.ownerId = ownerId := by
  cases hget : Dict.get byOwner ownerId with
  | some group =>
    obtain ⟨before, after, rfl, -⟩ := List.lookup_eq_some_iff.mp hget
    exact h.group (ownerId, group) (List.mem_append_right _ List.mem_cons_self)
  | none =>
    refine (List.filter_eq_nil_iff.mpr fun o ho howner ↦ ?_).symm
    have hmem := (h.mem_iff _).mpr (h.owner o ho)
    rw [of_decide_eq_true howner] at hmem
    obtain ⟨entry, hentry, rfl⟩ := List.mem_map.mp hmem
    exact absurd (List.lookup_eq_none_iff.mp hget entry hentry) (by simp)

theorem GroupedBy.length_eq (h : GroupedBy byOwner ownerships ownerIds) :
    byOwner.length = ownerIds.card := by
  rw [← List.length_map (f := Prod.fst), ← List.toFinset_card_of_nodup h.nodup]
  congr 1
  ext ownerId
  rw [List.mem_toFinset, h.mem_iff]

end Groups

/-! ## Shares of the partitions

Owners are the names in the list of ownerships; the empty name is nobody. -/

section Shares

variable (n : ℕ) (owner : ℕ → String) (ownerId : String)

/-- The owners that a consumer counts: those that own a partition, and itself. -/
def activeOwners : Finset String := insert ownerId (((Finset.range n).image owner).erase "")

/-- How many partitions an owner has. -/
def owned : ℕ := holding (Finset.range n) owner ownerId

/-- `expected_count_per_owner`. -/
def expectedCount : ℕ := n / (activeOwners n owner ownerId).card

/-- `max_count_per_owner`. -/
def maxCount : ℕ :=
  (n + (activeOwners n owner ownerId).card - 1) / (activeOwners n owner ownerId).card

/-- There is nothing that the consumer would claim or steal. -/
def AtRest : Prop :=
  (owned n owner "" = 0 ∨ maxCount n owner ownerId ≤ owned n owner ownerId) ∧
    expectedCount n owner ownerId ≤ owned n owner ownerId

/-- What a consumer claims beyond its own partitions: nothing, partitions that nobody owns, or one
of an owner that has at least two more. -/
inductive Taken : List ℕ → Prop
  | nothing (h : AtRest n owner ownerId) : Taken []
  | free {ids : List ℕ} (hne : ids ≠ []) (hnodup : ids.Nodup)
      (hfree : ∀ i ∈ ids, i < n ∧ owner i = "") (h : ¬AtRest n owner ownerId) : Taken ids
  | stolen {i : ℕ} (hi : i < n) (howner : owner i ∈ (activeOwners n owner ownerId).erase ownerId)
      (hmore : owned n owner ownerId + 2 ≤ owned n owner (owner i))
      (h : ¬AtRest n owner ownerId) : Taken [i]

variable {n owner ownerId}

theorem Taken.lt {ids : List ℕ} (h : Taken n owner ownerId ids) {i : ℕ} (hi : i ∈ ids) : i < n := by
  cases h with
  | nothing => exact absurd hi List.not_mem_nil
  | free hne hnodup hfree => exact (hfree i hi).1
  | stolen hlt => exact List.mem_singleton.mp hi ▸ hlt

theorem Taken.nodup {ids : List ℕ} (h : Taken n owner ownerId ids) : ids.Nodup := by
  cases h with
  | nothing => exact List.nodup_nil
  | free hne hnodup => exact hnodup
  | stolen => exact List.nodup_singleton _

theorem Taken.ne {ids : List ℕ} (h : Taken n owner ownerId ids) (hownerId : ownerId ≠ "") {i : ℕ}
    (hi : i ∈ ids) : owner i ≠ ownerId := by
  cases h with
  | nothing => exact absurd hi List.not_mem_nil
  | free hne hnodup hfree => exact (hfree i hi).2 ▸ hownerId.symm
  | stolen hlt howner => exact List.mem_singleton.mp hi ▸ (Finset.mem_erase.mp howner).1

theorem owned_pos_iff : 0 < owned n owner ownerId ↔ ∃ i < n, owner i = ownerId := by
  rw [owned, holding, Finset.card_pos]
  constructor
  · rintro ⟨i, hi⟩
    exact ⟨i, Finset.mem_range.mp (Finset.mem_filter.mp hi).1, (Finset.mem_filter.mp hi).2⟩
  · rintro ⟨i, hi, howner⟩
    exact ⟨i, Finset.mem_filter.mpr ⟨Finset.mem_range.mpr hi, howner⟩⟩

theorem mem_activeOwners_self : ownerId ∈ activeOwners n owner ownerId :=
  Finset.mem_insert_self _ _

theorem card_activeOwners_pos : 0 < (activeOwners n owner ownerId).card :=
  Finset.card_pos.mpr ⟨_, mem_activeOwners_self⟩

theorem ne_empty_of_mem_activeOwners (hownerId : ownerId ≠ "") {other : String}
    (h : other ∈ activeOwners n owner ownerId) : other ≠ "" := by
  rcases Finset.mem_insert.mp h with rfl | h
  · exact hownerId
  · exact (Finset.mem_erase.mp h).1

theorem mem_activeOwners_of_owned (hnone : owned n owner "" = 0) {i : ℕ} (hi : i < n) :
    owner i ∈ activeOwners n owner ownerId := by
  refine Finset.mem_insert_of_mem (Finset.mem_erase.mpr ⟨fun hempty ↦ ?_, ?_⟩)
  · exact hnone.not_gt (owned_pos_iff.mpr ⟨i, hi, hempty⟩)
  · exact Finset.mem_image_of_mem owner (Finset.mem_range.mpr hi)

/-- Where everything is owned and a consumer has less than it expects, an owner has more. -/
theorem exists_expectedCount_lt (hnone : owned n owner "" = 0)
    (hless : owned n owner ownerId < expectedCount n owner ownerId) :
    ∃ other ∈ activeOwners n owner ownerId,
      expectedCount n owner ownerId < owned n owner other := by
  refine exists_lt_holding (fun i hi ↦ ?_) mem_activeOwners_self ?_ hless
  · exact mem_activeOwners_of_owned hnone (Finset.mem_range.mp hi)
  · rw [Finset.card_range]
    exact Nat.div_mul_le_self _ _

theorem length_filter_order {store : PartitionStore n} (p : ℕ → Prop) [DecidablePred p] :
    (store.order.filter fun i ↦ p i).length = ((Finset.range n).filter p).card := by
  rw [(store.perm.filter _).length_eq]
  have htoFinset : (Finset.range n).filter p = ((List.range n).filter fun i ↦ p i).toFinset := by
    ext i
    simp
  rw [htoFinset, List.toFinset_card_of_nodup (List.nodup_range.filter _)]

end Shares

/-! ## What a consumer balances -/

namespace PartitionStore

variable {n : ℕ} (store : PartitionStore n)

def owner (i : ℕ) : String := (store.state i).ownerId

/-- The ownership of a partition, as it is listed. -/
def ownership (hub : HubId) (i : ℕ) : Ownership where
  hub := hub
  partitionId := i
  ownerId := store.owner i
  etag := some (store.state i).etag
  lastModifiedTime := some (store.state i).lastModifiedTime

theorem map_partitionId_ownership {store : PartitionStore n} {hub : HubId} (ids : List ℕ) :
    (ids.map (store.ownership hub)).map Ownership.partitionId = ids := by
  rw [List.map_map]
  exact List.map_id _

/-- No ownership has timed out. -/
def Renewed (manager : OwnershipManager) (now : ℚ) : Prop :=
  ∀ i < n, store.owner i ≠ "" →
    now ≤ ((store.state i).lastModifiedTime : ℚ) + manager.ownershipTimeout

end PartitionStore

namespace OwnershipManager

section Listed

variable {n : ℕ} {store : PartitionStore n} {manager : OwnershipManager} {now : ℚ} {hub : HubId}
  {draws : Draws} {allPartitionIds : List ℕ}

theorem isReleased_ownership (hrenewed : store.Renewed manager now) {i : ℕ} (hi : i < n) :
    manager.isReleased now (store.ownership hub i) = true ↔ store.owner i = "" := by
  rw [isReleased, Bool.or_eq_true_iff, decide_eq_true_iff]
  refine or_iff_right_of_imp fun htimeout ↦ ?_
  by_contra howned
  exact absurd (hrenewed i hi howned) (not_le.mpr (of_decide_eq_true htimeout))

theorem releasedPartitions_listOwnership (hrenewed : store.Renewed manager now) :
    manager.releasedPartitions now (store.listOwnership hub) =
      (store.order.filter fun i ↦ store.owner i = "").map (store.ownership hub) := by
  change (store.order.map (store.ownership hub)).filter (manager.isReleased now) = _
  rw [List.filter_map]
  refine congrArg (List.map _) (List.filter_congr fun i hi ↦ ?_)
  rw [Function.comp_apply, Bool.eq_iff_iff, decide_eq_true_iff]
  exact isReleased_ownership hrenewed (PartitionStore.mem_order_iff.mp hi)

theorem active_listOwnership (hrenewed : store.Renewed manager now) :
    (store.listOwnership hub).filter
        (· ∉ manager.releasedPartitions now (store.listOwnership hub)) =
      (store.order.filter fun i ↦ store.owner i ≠ "").map (store.ownership hub) := by
  change (store.order.map (store.ownership hub)).filter _ = _
  rw [List.filter_map]
  refine congrArg (List.map _) (List.filter_congr fun i hi ↦ ?_)
  rw [Function.comp_apply, Bool.eq_iff_iff, decide_eq_true_iff, decide_eq_true_iff,
    releasedPartitions_listOwnership hrenewed]
  refine not_congr ⟨fun hmem ↦ ?_, fun hempty ↦ ?_⟩
  · obtain ⟨j, hj, hij⟩ := List.mem_map.mp hmem
    obtain rfl : j = i := congrArg Ownership.partitionId hij
    exact of_decide_eq_true (List.mem_filter.mp hj).2
  · exact List.mem_map_of_mem (List.mem_filter.mpr ⟨hi, decide_eq_true hempty⟩)

theorem groupedBy_listOwnership (hrenewed : store.Renewed manager now) :
    GroupedBy (manager.activeOwnershipByOwner now (store.listOwnership hub))
      ((store.order.filter fun i ↦ store.owner i ≠ "").map (store.ownership hub))
      (activeOwners n store.owner manager.ownerId) := by
  have hempty : GroupedBy [] [] ∅ :=
    ⟨List.nodup_nil, fun _ ↦ ⟨fun h ↦ absurd h List.not_mem_nil,
      fun h ↦ absurd h (Finset.notMem_empty _)⟩, fun _ h ↦ absurd h List.not_mem_nil,
      fun _ h ↦ absurd h List.not_mem_nil⟩
  have hgroups := (groupedBy_foldl
    ((store.order.filter fun i ↦ store.owner i ≠ "").map (store.ownership hub)) hempty).touchOwner
    manager.ownerId
  rw [List.nil_append, Finset.empty_union, List.map_map] at hgroups
  have howners : ((store.order.filter fun i ↦ store.owner i ≠ "").map
      (Ownership.ownerId ∘ store.ownership hub)).toFinset =
      ((Finset.range n).image store.owner).erase "" := by
    ext ownerId
    rw [List.mem_toFinset, List.mem_map, Finset.mem_erase, Finset.mem_image]
    constructor
    · rintro ⟨i, hi, rfl⟩
      obtain ⟨hmem, howned⟩ := List.mem_filter.mp hi
      exact ⟨of_decide_eq_true howned, i,
        Finset.mem_range.mpr (PartitionStore.mem_order_iff.mp hmem), rfl⟩
    · rintro ⟨howned, i, hi, rfl⟩
      exact ⟨i, List.mem_filter.mpr ⟨PartitionStore.mem_order_iff.mpr (Finset.mem_range.mp hi),
        decide_eq_true howned⟩, rfl⟩
  rw [howners] at hgroups
  rw [activeOwnershipByOwner, active_listOwnership hrenewed]
  exact hgroups

theorem filter_active {ownerId : String} (hownerId : ownerId ≠ "") :
    ((store.order.filter fun i ↦ store.owner i ≠ "").map (store.ownership hub)).filter
        (fun o ↦ o.ownerId = ownerId) =
      (store.order.filter fun i ↦ store.owner i = ownerId).map (store.ownership hub) := by
  rw [List.filter_map, List.filter_filter]
  refine congrArg (List.map _) (List.filter_congr fun i _ ↦ ?_)
  rw [Function.comp_apply, Bool.eq_iff_iff, Bool.and_eq_true, decide_eq_true_iff,
    decide_eq_true_iff, decide_eq_true_iff]
  refine and_iff_left_of_imp fun h ↦ ?_
  change store.owner i = ownerId at h
  rw [h]
  exact hownerId

theorem activeOwnershipSelf_listOwnership (hrenewed : store.Renewed manager now)
    (hownerId : manager.ownerId ≠ "") :
    manager.activeOwnershipSelf now (store.listOwnership hub) =
      (store.order.filter fun i ↦ store.owner i = manager.ownerId).map (store.ownership hub) := by
  rw [activeOwnershipSelf, (groupedBy_listOwnership hrenewed).getD_get, filter_active hownerId]

theorem length_activeOwnershipSelf (hrenewed : store.Renewed manager now)
    (hownerId : manager.ownerId ≠ "") :
    (manager.activeOwnershipSelf now (store.listOwnership hub)).length =
      owned n store.owner manager.ownerId := by
  rw [activeOwnershipSelf_listOwnership hrenewed hownerId, List.length_map,
    length_filter_order fun i ↦ store.owner i = manager.ownerId]
  rfl

theorem claimablePartitionIds_listOwnership (hrenewed : store.Renewed manager now)
    (hall : allPartitionIds.Perm (List.range n)) :
    manager.claimablePartitionIds now (store.listOwnership hub) allPartitionIds =
      store.order.filter fun i ↦ store.owner i = "" := by
  have hknown : allPartitionIds.filter
      (fun pid ↦ pid ∉ (store.listOwnership hub).map Ownership.partitionId) = [] := by
    refine List.filter_eq_nil_iff.mpr fun pid hpid hnot ↦ of_decide_eq_true hnot ?_
    change pid ∈ (store.order.map (store.ownership hub)).map Ownership.partitionId
    rw [PartitionStore.map_partitionId_ownership]
    exact PartitionStore.mem_order_iff.mpr (List.mem_range.mp (hall.mem_iff.mp hpid))
  rw [claimablePartitionIds, hknown, List.nil_append, releasedPartitions_listOwnership hrenewed,
    PartitionStore.map_partitionId_ownership]

theorem length_claimablePartitionIds (hrenewed : store.Renewed manager now)
    (hall : allPartitionIds.Perm (List.range n)) :
    (manager.claimablePartitionIds now (store.listOwnership hub) allPartitionIds).length =
      owned n store.owner "" := by
  rw [claimablePartitionIds_listOwnership hrenewed hall,
    length_filter_order fun i ↦ store.owner i = ""]
  rfl

theorem expectedCountPerOwner_listOwnership (hrenewed : store.Renewed manager now)
    (hall : allPartitionIds.Perm (List.range n)) :
    manager.expectedCountPerOwner now (store.listOwnership hub) allPartitionIds =
      expectedCount n store.owner manager.ownerId := by
  rw [expectedCountPerOwner, (groupedBy_listOwnership hrenewed).length_eq, hall.length_eq,
    List.length_range]
  rfl

theorem maxCountPerOwner_listOwnership (hrenewed : store.Renewed manager now)
    (hall : allPartitionIds.Perm (List.range n)) :
    manager.maxCountPerOwner now (store.listOwnership hub) allPartitionIds =
      maxCount n store.owner manager.ownerId := by
  rw [maxCountPerOwner, (groupedBy_listOwnership hrenewed).length_eq, hall.length_eq,
    List.length_range]
  rfl

end Listed

section Taken

variable {n : ℕ} {store : PartitionStore n} {manager : OwnershipManager} {now : ℚ} {hub : HubId}
  {draws : Draws} {allPartitionIds : List ℕ}

theorem chosen_listOwnership {i : ℕ} (hi : i < n) :
    manager.chosen (store.listOwnership hub) i =
      { store.ownership hub i with ownerId := manager.ownerId } := by
  have hfind : (store.listOwnership hub).reverse.find? (fun o ↦ o.partitionId = i) =
      some (store.ownership hub i) := by
    change (store.order.map (store.ownership hub)).reverse.find? _ = _
    rw [← List.map_reverse, List.find?_map]
    have hid : store.order.reverse.find? ((fun o : Ownership ↦ decide (o.partitionId = i)) ∘
        store.ownership hub) = some i := by
      cases hj : store.order.reverse.find? ((fun o : Ownership ↦ decide (o.partitionId = i)) ∘
          store.ownership hub) with
      | some j =>
        have hij := List.find?_some hj
        exact congrArg some (of_decide_eq_true hij)
      | none =>
        have hmem : i ∈ store.order.reverse :=
          List.mem_reverse.mpr (PartitionStore.mem_order_iff.mpr hi)
        exact absurd (decide_eq_true rfl) (List.find?_eq_none.mp hj i hmem)
    rw [hid]
    rfl
  rw [chosen, hfind]
  rfl

theorem drawn_listOwnership (hub : HubId) (draws : Draws) (hrenewed : store.Renewed manager now)
    (hownerId : manager.ownerId ≠ "") (hall : allPartitionIds.Perm (List.range n))
    (hless : owned n store.owner manager.ownerId < maxCount n store.owner manager.ownerId) :
    (manager.drawn now (store.listOwnership hub) allPartitionIds draws).Nodup ∧
      (∀ i ∈ manager.drawn now (store.listOwnership hub) allPartitionIds draws,
        i < n ∧ store.owner i = "") ∧
      (manager.drawn now (store.listOwnership hub) allPartitionIds draws = [] →
        owned n store.owner "" = 0) := by
  have hsubset : manager.drawn now (store.listOwnership hub) allPartitionIds draws ⊆
      manager.claimablePartitionIds now (store.listOwnership hub) allPartitionIds :=
    drawn_subset now allPartitionIds
  have hfree : ∀ i ∈ manager.drawn now (store.listOwnership hub) allPartitionIds draws,
      i < n ∧ store.owner i = "" := by
    intro i hi
    have hmem := hsubset hi
    rw [claimablePartitionIds_listOwnership hrenewed hall] at hmem
    obtain ⟨hmem, hempty⟩ := List.mem_filter.mp hmem
    exact ⟨PartitionStore.mem_order_iff.mp hmem, of_decide_eq_true hempty⟩
  have hnodup : (manager.claimablePartitionIds now (store.listOwnership hub)
      allPartitionIds).Nodup := by
    rw [claimablePartitionIds_listOwnership hrenewed hall]
    exact PartitionStore.nodup_order.filter _
  have hlength : (manager.claimablePartitionIds now (store.listOwnership hub)
      allPartitionIds).length = owned n store.owner "" := length_claimablePartitionIds hrenewed hall
  refine ⟨?_, hfree, fun hnil ↦ ?_⟩
  · rw [drawn]
    cases manager.loadBalancingStrategy with
    | greedy =>
      obtain ⟨l, hperm, hsub⟩ := draws.sample_subperm (manager.claimablePartitionIds now
        (store.listOwnership hub) allPartitionIds) (min (manager.maxCountPerOwner now
          (store.listOwnership hub) allPartitionIds - (manager.activeOwnershipSelf now
            (store.listOwnership hub)).length) (manager.claimablePartitionIds now
              (store.listOwnership hub) allPartitionIds).length)
      exact hperm.nodup_iff.mp (hsub.nodup hnodup)
    | balanced =>
      dsimp only
      cases draws.choice (manager.claimablePartitionIds now (store.listOwnership hub)
          allPartitionIds) with
      | none => exact List.nodup_nil
      | some i => exact List.nodup_singleton i
  · rw [drawn] at hnil
    rw [← hlength]
    cases hstrategy : manager.loadBalancingStrategy with
    | greedy =>
      rw [hstrategy] at hnil
      dsimp only at hnil
      have hzero := congrArg List.length hnil
      rw [draws.length_sample _ _ (Nat.min_le_right _ _), List.length_nil,
        maxCountPerOwner_listOwnership hrenewed hall,
        length_activeOwnershipSelf hrenewed hownerId] at hzero
      omega
    | balanced =>
      rw [hstrategy] at hnil
      dsimp only at hnil
      rw [Option.toList_eq_nil_iff, Draws.choice, List.getElem?_eq_none_iff] at hnil
      by_contra hpositive
      exact absurd (draws.index_lt _ (Nat.pos_of_ne_zero hpositive)) hnil.not_gt

/-- What is stolen where everything is owned and the consumer has less than it expects. -/
theorem stolen_listOwnership (hub : HubId) (draws : Draws)
    (hrenewed : store.Renewed manager now) (hownerId : manager.ownerId ≠ "")
    (hnone : owned n store.owner "" = 0)
    (hless : owned n store.owner manager.ownerId < expectedCount n store.owner manager.ownerId) :
    ∃ i < n, manager.stolen now (store.listOwnership hub) draws = [store.ownership hub i] ∧
      store.owner i ∈ (activeOwners n store.owner manager.ownerId).erase manager.ownerId ∧
      owned n store.owner manager.ownerId + 2 ≤ owned n store.owner (store.owner i) := by
  have hgroups : GroupedBy (manager.activeOwnershipByOwner now (store.listOwnership hub))
      ((store.order.filter fun i ↦ store.owner i ≠ "").map (store.ownership hub))
      (activeOwners n store.owner manager.ownerId) := groupedBy_listOwnership hrenewed
  obtain ⟨other, hother, hmore⟩ := exists_expectedCount_lt hnone hless
  -- the group of an owner is as long as what the owner has
  have hlength : ∀ entry ∈ manager.activeOwnershipByOwner now (store.listOwnership hub),
      entry.1 ∈ activeOwners n store.owner manager.ownerId ∧
        entry.2 = (store.order.filter fun i ↦ store.owner i = entry.1).map
          (store.ownership hub) ∧ entry.2.length = owned n store.owner entry.1 := by
    intro entry hentry
    have hmem := (hgroups.mem_iff entry.1).mp (List.mem_map_of_mem hentry)
    have hgroup := hgroups.group entry hentry
    rw [filter_active (ne_empty_of_mem_activeOwners hownerId hmem)] at hgroup
    refine ⟨hmem, hgroup, ?_⟩
    rw [hgroup, List.length_map, length_filter_order fun i ↦ store.owner i = entry.1]
    rfl
  rw [stolen]
  cases hmost : (manager.activeOwnershipByOwner now (store.listOwnership hub)).argmax
      fun entry ↦ entry.2.length with
  | none =>
    rw [List.argmax_eq_none] at hmost
    have hself := (hgroups.mem_iff manager.ownerId).mpr mem_activeOwners_self
    rw [hmost] at hself
    exact absurd hself List.not_mem_nil
  | some entry =>
    obtain ⟨hmem, hgroup, hcount⟩ := hlength entry (List.argmax_mem hmost)
    obtain ⟨otherEntry, hotherEntry, rfl⟩ := List.mem_map.mp ((hgroups.mem_iff other).mpr hother)
    have hmax := List.le_of_mem_argmax (f := fun entry : String × List Ownership ↦
      entry.2.length) hotherEntry hmost
    rw [(hlength otherEntry hotherEntry).2.2, hcount] at hmax
    have hpositive : 0 < entry.2.length := by
      rw [hcount]
      exact Nat.zero_lt_of_lt (hmore.trans_le hmax)
    obtain ⟨ownerId, group⟩ := entry
    dsimp only at hgroup hcount hmax hpositive hmem ⊢
    have hindex := draws.index_lt _ hpositive
    have hchoice : (draws.choice group).toList = [group[draws.index group.length]] := by
      rw [Draws.choice, List.getElem?_eq_getElem hindex]
      rfl
    have hin : group[draws.index group.length] ∈
        (store.order.filter fun i ↦ store.owner i = ownerId).map (store.ownership hub) :=
      (congrArg (group[draws.index group.length] ∈ ·) hgroup).mp (List.getElem_mem hindex)
    obtain ⟨i, hi, hchosen⟩ := List.mem_map.mp hin
    obtain ⟨horder, howner⟩ := List.mem_filter.mp hi
    have howner := of_decide_eq_true howner
    refine ⟨i, PartitionStore.mem_order_iff.mp horder, ?_, ?_, ?_⟩
    · rw [hchoice, ← hchosen]
    · rw [howner]
      refine Finset.mem_erase.mpr ⟨?_, hmem⟩
      rintro rfl
      omega
    · rw [howner]
      omega

/-- **One turn.** What is claimed are the consumer's own partitions, against the etags that are
stored, and what it takes beyond these. -/
theorem exists_taken (hub : HubId) (draws : Draws) (hrenewed : store.Renewed manager now)
    (hownerId : manager.ownerId ≠ "") (hall : allPartitionIds.Perm (List.range n)) :
    ∃ ids, Taken n store.owner manager.ownerId ids ∧
      (manager.balanceOwnership now (store.listOwnership hub) allPartitionIds draws).map
          Ownership.partitionId =
        store.order.filter (fun i ↦ store.owner i = manager.ownerId) ++ ids ∧
      ∀ o ∈ manager.balanceOwnership now (store.listOwnership hub) allPartitionIds draws,
        o.ownerId = manager.ownerId ∧ o.etag = some (store.state o.partitionId).etag := by
  have hself : manager.activeOwnershipSelf now (store.listOwnership hub) =
      (store.order.filter fun i ↦ store.owner i = manager.ownerId).map (store.ownership hub) :=
    activeOwnershipSelf_listOwnership hrenewed hownerId
  have hselfOf : ∀ o ∈ manager.activeOwnershipSelf now (store.listOwnership hub),
      o.ownerId = manager.ownerId ∧ o.etag = some (store.state o.partitionId).etag := by
    intro o ho
    rw [hself] at ho
    obtain ⟨i, hi, rfl⟩ := List.mem_map.mp ho
    exact ⟨of_decide_eq_true (List.mem_filter.mp hi).2, rfl⟩
  have hselfIds : (manager.activeOwnershipSelf now (store.listOwnership hub)).map
      Ownership.partitionId = store.order.filter fun i ↦ store.owner i = manager.ownerId := by
    rw [hself, PartitionStore.map_partitionId_ownership]
  have hexpected : expectedCount n store.owner manager.ownerId ≤
      maxCount n store.owner manager.ownerId :=
    Nat.div_le_div_right (Nat.le_sub_of_add_le (Nat.add_le_add_left card_activeOwners_pos n))
  rw [balanceOwnership, length_activeOwnershipSelf hrenewed hownerId,
    maxCountPerOwner_listOwnership hrenewed hall, expectedCountPerOwner_listOwnership hrenewed hall]
  dsimp only
  split_ifs with hmax hdrawn hless
  · obtain ⟨hnodup, hfree, -⟩ := drawn_listOwnership hub draws hrenewed hownerId hall hmax
    have hids : ((manager.drawn now (store.listOwnership hub) allPartitionIds draws).map
        (manager.chosen (store.listOwnership hub))).map Ownership.partitionId =
        manager.drawn now (store.listOwnership hub) allPartitionIds draws := by
      rw [List.map_map]
      exact (List.map_congr_left fun i _ ↦ partitionId_chosen i).trans (List.map_id _)
    refine ⟨_, .free hdrawn hnodup hfree ?_, ?_, ?_⟩
    · rintro ⟨hnone | hle, -⟩
      · obtain ⟨i, hi⟩ := List.exists_mem_of_ne_nil _ hdrawn
        exact hnone.not_gt (owned_pos_iff.mpr ⟨i, hfree i hi⟩)
      · exact absurd hmax hle.not_gt
    · rw [List.map_append, hselfIds, hids]
    · refine List.forall_mem_append.mpr ⟨hselfOf, List.forall_mem_map.mpr fun i hi ↦ ?_⟩
      rw [chosen_listOwnership (hfree i hi).1]
      exact ⟨rfl, rfl⟩
  · obtain ⟨-, -, hnone⟩ := drawn_listOwnership hub draws hrenewed hownerId hall hmax
    obtain ⟨i, hi, hstolen, howner, hmore⟩ := stolen_listOwnership hub draws hrenewed hownerId
      (hnone (not_not.mp hdrawn)) hless
    refine ⟨[i], .stolen hi howner hmore fun hrest ↦ ?_, ?_, ?_⟩
    · exact absurd hless hrest.2.not_gt
    · rw [hstolen, List.map_append, hselfIds]
      rfl
    · rw [hstolen]
      refine List.forall_mem_append.mpr ⟨hselfOf, ?_⟩
      rw [List.map_cons, List.map_nil, List.forall_mem_singleton]
      exact ⟨rfl, rfl⟩
  · obtain ⟨-, -, hnone⟩ := drawn_listOwnership hub draws hrenewed hownerId hall hmax
    refine ⟨[], .nothing ⟨Or.inl (hnone (not_not.mp hdrawn)), not_lt.mp hless⟩, ?_, hselfOf⟩
    rw [hselfIds, List.append_nil]
  · refine ⟨[], .nothing ⟨Or.inr (not_lt.mp hmax), hexpected.trans (not_lt.mp hmax)⟩, ?_, hselfOf⟩
    rw [hselfIds, List.append_nil]

end Taken

end OwnershipManager

/-! ## What a turn changes -/

section Turn

variable {n : ℕ} {owner after : ℕ → String} {ownerId : String}

theorem owned_congr (h : ∀ i < n, owner i = after i) (other : String) :
    owned n owner other = owned n after other :=
  holding_congr fun i hi ↦ h i (Finset.mem_range.mp hi)

theorem atRest_congr (h : ∀ i < n, owner i = after i) :
    AtRest n owner ownerId ↔ AtRest n after ownerId := by
  have himage : (Finset.range n).image owner = (Finset.range n).image after :=
    Finset.image_congr fun i hi ↦ h i (Finset.mem_range.mp hi)
  rw [AtRest, AtRest, maxCount, maxCount, expectedCount, expectedCount, activeOwners, activeOwners,
    himage, owned_congr h, owned_congr h]

/-- The owners change as parts pass to the consumer. -/
inductive Moves (n : ℕ) (owner after : ℕ → String) (ownerId : String) : Prop
  | free (moved : Finset ℕ) (hne : moved.Nonempty)
      (h : Transfer (Finset.range n) "" ownerId moved owner after)
  | stolen (i : ℕ) (hsource : owner i ∈ (activeOwners n owner ownerId).erase ownerId)
      (hmore : owned n owner ownerId + 2 ≤ owned n owner (owner i))
      (h : Transfer (Finset.range n) (owner i) ownerId {i} owner after)

/-- Of the partitions that are taken, some are acquired, or none. -/
theorem Taken.moves {ids : List ℕ} (h : Taken n owner ownerId ids) (hownerId : ownerId ≠ "")
    {acquired : List ℕ} (hacquired : ∀ i ∈ acquired, owner i = ownerId ∨ i ∈ ids)
    (hafter : ∀ i < n, after i = if i ∈ acquired then ownerId else owner i) :
    (∀ i < n, after i = owner i) ∨ Moves n owner after ownerId := by
  by_cases hsame : ∀ i < n, after i = owner i
  · exact Or.inl hsame
  · refine Or.inr ?_
    have hstays : ∀ i < n, owner i = ownerId → after i = owner i := by
      intro i hi howner
      rw [hafter i hi, howner, ite_self]
    rw [not_forall] at hsame
    obtain ⟨i, hi⟩ := hsame
    rw [Classical.not_imp] at hi
    have hmem : i ∈ acquired ∧ owner i ≠ ownerId := by
      refine ⟨?_, fun howner ↦ hi.2 (hstays i hi.1 howner)⟩
      by_contra hnot
      exact hi.2 (by rw [hafter i hi.1, if_neg hnot])
    have hi' := (hacquired i hmem.1).resolve_left hmem.2
    cases h with
    | nothing => exact absurd hi' List.not_mem_nil
    | free hne hnodup hfree hrest =>
      refine .free ((Finset.range n).filter fun i ↦ i ∈ acquired ∧ owner i ≠ ownerId)
        ⟨i, Finset.mem_filter.mpr ⟨Finset.mem_range.mpr hi.1, hmem⟩⟩
        ⟨hownerId.symm, Finset.filter_subset _ _, fun j hj ↦ ?_, fun j hj ↦ ?_, fun j hj hnot ↦ ?_⟩
      · obtain ⟨-, hj, hne⟩ := Finset.mem_filter.mp hj
        exact (hfree j ((hacquired j hj).resolve_left hne)).2
      · obtain ⟨hrange, hj, -⟩ := Finset.mem_filter.mp hj
        rw [hafter j (Finset.mem_range.mp hrange), if_pos hj]
      · by_cases howner : owner j = ownerId
        · exact hstays j (Finset.mem_range.mp hj) howner
        · have hnot' : j ∉ acquired := fun hmem ↦ hnot (Finset.mem_filter.mpr ⟨hj, hmem, howner⟩)
          rw [hafter j (Finset.mem_range.mp hj), if_neg hnot']
    | @stolen j hj howner hmore hrest =>
      obtain rfl := List.mem_singleton.mp hi'
      refine .stolen i howner hmore ⟨hmem.2, ?_, ?_, ?_, fun k hk hnot ↦ ?_⟩
      · exact Finset.singleton_subset_iff.mpr (Finset.mem_range.mpr hi.1)
      · intro k hk
        rw [Finset.mem_singleton.mp hk]
      · intro k hk
        rw [Finset.mem_singleton.mp hk, hafter i hi.1, if_pos hmem.1]
      · rw [Finset.mem_singleton] at hnot
        by_cases howner : owner k = ownerId
        · exact hstays k (Finset.mem_range.mp hk) howner
        · have hnot' : k ∉ acquired := fun hmem ↦ hnot
            (List.mem_singleton.mp ((hacquired k hmem).resolve_left howner))
          rw [hafter k (Finset.mem_range.mp hk), if_neg hnot']

/-- A consumer at rest takes nothing, and one that is not takes something that is not its own. -/
theorem Taken.same_iff {ids : List ℕ} (h : Taken n owner ownerId ids) (hownerId : ownerId ≠ "")
    {acquired : List ℕ} (hacquired : ∀ i ∈ acquired, owner i = ownerId ∨ i ∈ ids)
    (hids : ∀ i ∈ ids, i ∈ acquired)
    (hafter : ∀ i < n, after i = if i ∈ acquired then ownerId else owner i) :
    (∀ i < n, after i = owner i) ↔ AtRest n owner ownerId := by
  cases h with
  | nothing hrest =>
    refine iff_of_true (fun i hi ↦ ?_) hrest
    rw [hafter i hi]
    split_ifs with hmem
    · exact ((hacquired i hmem).resolve_right List.not_mem_nil).symm
    · rfl
  | free hne hnodup hfree hrest =>
    refine iff_of_false (fun hsame ↦ ?_) hrest
    obtain ⟨i, hi⟩ := List.exists_mem_of_ne_nil _ hne
    have hi' := hsame i (hfree i hi).1
    rw [hafter i (hfree i hi).1, if_pos (hids i hi), (hfree i hi).2] at hi'
    exact hownerId hi'
  | @stolen i hi howner hmore hrest =>
    refine iff_of_false (fun hsame ↦ ?_) hrest
    have hi' := hsame i hi
    rw [hafter i hi, if_pos (hids i List.mem_cons_self)] at hi'
    exact (Finset.mem_erase.mp howner).1 hi'.symm

theorem Moves.eq_or_eq (h : Moves n owner after ownerId) {i : ℕ} (hi : i < n) :
    after i = owner i ∨ after i = ownerId := by
  cases h with
  | free moved hne h => exact h.eq_or_eq (Finset.mem_range.mpr hi)
  | stolen j hsource hmore h => exact h.eq_or_eq (Finset.mem_range.mpr hi)

/-- Partitions pass to a consumer among the consumers only so that unrest is less. -/
theorem Moves.unrest_lt {consumers : Finset String} (h : Moves n owner after ownerId)
    (hownerId : ownerId ∈ consumers) (hempty : "" ∉ consumers)
    (howners : ∀ i < n, owner i ∈ insert "" consumers) :
    unrest (Finset.range n) consumers "" after < unrest (Finset.range n) consumers "" owner := by
  cases h with
  | free moved hne h => exact h.unrest_lt_of_nobody hne hownerId hempty
  | stolen i hsource hmore h =>
    refine h.unrest_lt_of_holder (Finset.card_singleton i) ?_ hownerId hempty hmore
    have hi : i < n := Finset.mem_range.mp (h.subset (Finset.mem_singleton_self i))
    have hne := ne_empty_of_mem_activeOwners (ne_of_mem_of_not_mem hownerId hempty)
      (Finset.mem_of_mem_erase hsource)
    exact (Finset.mem_insert.mp (howners i hi)).resolve_left hne

end Turn

end MsSecurity
