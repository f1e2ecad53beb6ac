import MsSecurity.EventHub.OneClient
import Mathlib.Data.List.MinMax
import Mathlib.Data.List.Perm.Subperm
import Mathlib.Data.Rat.Init
import Mathlib.Algebra.Order.Ring.Unbundled.Rat

/-!
# Claiming what the ownership manager lists

The ownership manager of the SDK compares the listed ownerships with the partitions of the event hub
and makes a list of what to claim: its own partitions, and some that nobody owns or, if there are
none, one of another owner. A partition without a record is among those that nobody owns. For it
`claim_ownership` looks beyond the end of its table of etags, which has one place for each record,
and raises. So the list is claimed if and only if it has no such partition (`claimsStored_iff`).
-/

namespace MsSecurity

/-! ## The ownership manager -/

/-- `LoadBalancingStrategy`. -/
inductive LoadBalancingStrategy
  | greedy
  | balanced
  deriving DecidableEq

/-- What `random` draws. -/
structure Draws where
  /-- `random.sample`. -/
  sample : List ℕ → ℕ → List ℕ
  sample_subperm : ∀ ids k, (sample ids k).Subperm ids
  length_sample : ∀ ids k, k ≤ ids.length → (sample ids k).length = k
  /-- The position that `random.choice` takes in a sequence of a length. -/
  index : ℕ → ℕ
  index_lt : ∀ n, 0 < n → index n < n

/-- `random.choice`. -/
def Draws.choice {α : Type} (draws : Draws) (l : List α) : Option α := l[draws.index l.length]?

/-- `active_ownership_by_owner[ownership["owner_id"]].append(ownership)`. -/
def appendByOwner (ownership : Ownership) : Dict (List Ownership) → Dict (List Ownership)
  | [] => [(ownership.ownerId, [ownership])]
  | (ownerId, ownerships) :: byOwner =>
    if ownerId = ownership.ownerId then (ownerId, ownerships ++ [ownership]) :: byOwner
    else (ownerId, ownerships) :: appendByOwner ownership byOwner

/-- `active_ownership_by_owner[owner_id]`, which makes an entry if there is none. -/
def touchOwner (ownerId : String) (byOwner : Dict (List Ownership)) : Dict (List Ownership) :=
  if (Dict.get byOwner ownerId).isSome then byOwner else byOwner ++ [(ownerId, [])]

structure OwnershipManager where
  hub : HubId
  ownerId : String
  ownershipTimeout : ℚ
  loadBalancingStrategy : LoadBalancingStrategy

namespace OwnershipManager

variable (manager : OwnershipManager)

/-- The ownership has timed out or has no owner; one that is listed has a time. -/
def isReleased (now : ℚ) (ownership : Ownership) : Bool :=
  (ownership.lastModifiedTime.any fun time ↦ (time : ℚ) + manager.ownershipTimeout < now) ||
    ownership.ownerId = ""

/-- `ownership_dict.get(pid, {...})` for this owner. Of two listed ownerships of one partition the
dictionary has the second. -/
def chosen (ownershipList : List Ownership) (pid : ℕ) : Ownership :=
  { (ownershipList.reverse.find? fun ownership ↦ ownership.partitionId = pid).getD
      ⟨manager.hub, pid, "", none, none⟩ with ownerId := manager.ownerId }

section Balance

variable (now : ℚ) (ownershipList : List Ownership) (allPartitionIds : List ℕ)

/-- `released_partitions`. -/
def releasedPartitions : List Ownership := ownershipList.filter (manager.isReleased now)

/-- `claimable_partition_ids`, the unclaimed ones first. -/
def claimablePartitionIds : List ℕ :=
  (allPartitionIds.filter fun pid ↦ pid ∉ ownershipList.map Ownership.partitionId) ++
    (manager.releasedPartitions now ownershipList).map Ownership.partitionId

/-- `active_ownership_by_owner`, with an entry for this owner. -/
def activeOwnershipByOwner : Dict (List Ownership) :=
  touchOwner manager.ownerId <|
    (ownershipList.filter (· ∉ manager.releasedPartitions now ownershipList)).foldl
      (fun byOwner ownership ↦ appendByOwner ownership byOwner) []

/-- `active_ownership_self`. -/
def activeOwnershipSelf : List Ownership :=
  (Dict.get (manager.activeOwnershipByOwner now ownershipList) manager.ownerId).getD []

/-- `expected_count_per_owner`. -/
def expectedCountPerOwner : ℕ :=
  allPartitionIds.length / (manager.activeOwnershipByOwner now ownershipList).length

/-- `max_count_per_owner`. No event hub has so many partitions that the float quotient of the source
would be rounded to another integer. -/
def maxCountPerOwner : ℕ :=
  let ownersCount := (manager.activeOwnershipByOwner now ownershipList).length
  (allPartitionIds.length + ownersCount - 1) / ownersCount

/-- The partitions that are drawn of the claimable ones. -/
def drawn (draws : Draws) : List ℕ :=
  let claimablePartitionIds := manager.claimablePartitionIds now ownershipList allPartitionIds
  match manager.loadBalancingStrategy with
  | .greedy => draws.sample claimablePartitionIds
      (min (manager.maxCountPerOwner now ownershipList allPartitionIds -
        (manager.activeOwnershipSelf now ownershipList).length) claimablePartitionIds.length)
  | .balanced => (draws.choice claimablePartitionIds).toList

/-- One of the ownerships of the owner that has the most. -/
def stolen (draws : Draws) : List Ownership :=
  match (manager.activeOwnershipByOwner now ownershipList).argmax fun entry ↦ entry.2.length with
  | some (_, ownerships) => (draws.choice ownerships).toList
  | none => []

/-- `_balance_ownership`. -/
def balanceOwnership (draws : Draws) : List Ownership :=
  let activeOwnershipSelf := manager.activeOwnershipSelf now ownershipList
  if activeOwnershipSelf.length < manager.maxCountPerOwner now ownershipList allPartitionIds then
    let drawn := manager.drawn now ownershipList allPartitionIds draws
    if drawn ≠ [] then activeOwnershipSelf ++ drawn.map (manager.chosen ownershipList)
    else if activeOwnershipSelf.length <
        manager.expectedCountPerOwner now ownershipList allPartitionIds then
      activeOwnershipSelf ++ (manager.stolen now ownershipList draws).map fun ownership ↦
        { ownership with ownerId := manager.ownerId }
    else activeOwnershipSelf
  else activeOwnershipSelf

end Balance

end OwnershipManager

/-! ## The partitions of the list -/

section Listed

variable {byOwner : Dict (List Ownership)} {ownerships : List Ownership}

/-- Every ownership in the groups is one of a list. -/
def GroupsOf (byOwner : Dict (List Ownership)) (ownerships : List Ownership) : Prop :=
  ∀ entry ∈ byOwner, entry.2 ⊆ ownerships

theorem GroupsOf.append (h : GroupsOf byOwner ownerships) {ownership : Ownership}
    (hmem : ownership ∈ ownerships) : GroupsOf (appendByOwner ownership byOwner) ownerships := by
  induction byOwner with
  | nil => exact List.forall_mem_singleton.mpr (List.cons_subset.mpr ⟨hmem, List.nil_subset _⟩)
  | cons entry byOwner ih =>
    obtain ⟨hentry, hrest⟩ := List.forall_mem_cons.mp h
    obtain ⟨ownerId, group⟩ := entry
    rw [appendByOwner]
    split_ifs
    · exact List.forall_mem_cons.mpr
        ⟨List.append_subset.mpr ⟨hentry, List.cons_subset.mpr ⟨hmem, List.nil_subset _⟩⟩, hrest⟩
    · exact List.forall_mem_cons.mpr ⟨hentry, ih hrest⟩

theorem groupsOf_foldl {listed : List Ownership} (h : GroupsOf byOwner ownerships)
    (hlisted : listed ⊆ ownerships) :
    GroupsOf (listed.foldl (fun byOwner ownership ↦ appendByOwner ownership byOwner) byOwner)
      ownerships := by
  induction listed generalizing byOwner with
  | nil => exact h
  | cons ownership listed ih =>
    obtain ⟨hmem, hlisted⟩ := List.cons_subset.mp hlisted
    exact ih (h.append hmem) hlisted

theorem GroupsOf.touchOwner (h : GroupsOf byOwner ownerships) (ownerId : String) :
    GroupsOf (touchOwner ownerId byOwner) ownerships := by
  rw [MsSecurity.touchOwner]
  split_ifs
  · exact h
  · refine List.forall_mem_append.mpr ⟨h, List.forall_mem_singleton.mpr ?_⟩
    exact List.nil_subset _

theorem GroupsOf.get_subset (h : GroupsOf byOwner ownerships) (ownerId : String) :
    (Dict.get byOwner ownerId).getD [] ⊆ ownerships := by
  cases hget : Dict.get byOwner ownerId with
  | none => exact List.nil_subset _
  | some group =>
    obtain ⟨before, after, rfl, -⟩ := List.lookup_eq_some_iff.mp hget
    exact h _ (List.mem_append_right _ List.mem_cons_self)

end Listed

namespace OwnershipManager

variable {manager : OwnershipManager} {draws : Draws} {ownershipList : List Ownership}

theorem partitionId_chosen (pid : ℕ) : (manager.chosen ownershipList pid).partitionId = pid := by
  change ((ownershipList.reverse.find? fun ownership ↦ ownership.partitionId = pid).getD
    ⟨manager.hub, pid, "", none, none⟩).partitionId = pid
  cases hfind : ownershipList.reverse.find? fun ownership ↦ ownership.partitionId = pid with
  | none => rfl
  | some ownership =>
    have hpid := List.find?_some hfind
    exact of_decide_eq_true hpid

theorem mem_of_mem_choice {α : Type} {l : List α} {a : α} (h : a ∈ (draws.choice l).toList) :
    a ∈ l := by
  rw [Option.mem_toList, Draws.choice] at h
  exact List.mem_of_getElem? h

theorem groupsOf_activeOwnershipByOwner (now : ℚ) :
    GroupsOf (manager.activeOwnershipByOwner now ownershipList) ownershipList :=
  (groupsOf_foldl (fun _ hnil ↦ absurd hnil List.not_mem_nil)
    List.filter_sublist.subset).touchOwner manager.ownerId

theorem activeOwnershipSelf_subset (now : ℚ) :
    manager.activeOwnershipSelf now ownershipList ⊆ ownershipList :=
  (groupsOf_activeOwnershipByOwner now).get_subset manager.ownerId

theorem stolen_subset (now : ℚ) : manager.stolen now ownershipList draws ⊆ ownershipList := by
  intro ownership h
  rw [stolen] at h
  split at h
  · rename_i ownerId group hmost
    exact groupsOf_activeOwnershipByOwner now _ (List.argmax_mem hmost) (mem_of_mem_choice h)
  · exact absurd h List.not_mem_nil

theorem drawn_subset (now : ℚ) (allPartitionIds : List ℕ) :
    manager.drawn now ownershipList allPartitionIds draws ⊆
      manager.claimablePartitionIds now ownershipList allPartitionIds := by
  intro pid h
  rw [drawn] at h
  split at h
  · exact (draws.sample_subperm _ _).subset h
  · exact mem_of_mem_choice h

theorem partitionId_mem_of_mem_claimablePartitionIds {now : ℚ} {allPartitionIds : List ℕ} {pid : ℕ}
    (h : pid ∈ manager.claimablePartitionIds now ownershipList allPartitionIds) :
    pid ∈ allPartitionIds ∨ pid ∈ ownershipList.map Ownership.partitionId := by
  rw [claimablePartitionIds, List.mem_append] at h
  exact h.imp List.mem_of_mem_filter fun hmem ↦ List.map_subset _ List.filter_sublist.subset hmem

theorem forall_mem_balanceOwnership_iff {now : ℚ} {allPartitionIds : List ℕ} {P : ℕ → Prop}
    (hlisted : ∀ ownership ∈ ownershipList, P ownership.partitionId) :
    (∀ ownership ∈ manager.balanceOwnership now ownershipList allPartitionIds draws,
      P ownership.partitionId) ↔
    ((manager.activeOwnershipSelf now ownershipList).length <
        manager.maxCountPerOwner now ownershipList allPartitionIds →
      ∀ pid ∈ manager.drawn now ownershipList allPartitionIds draws, P pid) := by
  have hself : ∀ ownership ∈ manager.activeOwnershipSelf now ownershipList,
      P ownership.partitionId := fun ownership hmem ↦
    hlisted ownership (activeOwnershipSelf_subset now hmem)
  rw [balanceOwnership]
  dsimp only
  split_ifs with hmax hdrawn hexpected
  · rw [List.forall_mem_append, and_iff_right hself, List.forall_mem_map,
      forall_prop_of_true hmax]
    exact forall₂_congr fun pid _ ↦ by rw [partitionId_chosen]
  · refine iff_of_true ?_ fun _ pid hpid ↦ ?_
    · refine List.forall_mem_append.mpr ⟨hself, List.forall_mem_map.mpr fun ownership hmem ↦ ?_⟩
      exact hlisted ownership (stolen_subset now hmem)
    · rw [not_not.mp hdrawn] at hpid
      exact absurd hpid List.not_mem_nil
  · refine iff_of_true hself fun _ pid hpid ↦ ?_
    rw [not_not.mp hdrawn] at hpid
    exact absurd hpid List.not_mem_nil
  · exact iff_of_true hself fun h ↦ absurd h hmax

end OwnershipManager

/-! ## What is claimed -/

namespace KVCheckpointStore

section Claims

variable {server : KVServer} {w : KVWorld} {records : List Record}

/-- `claim_ownership` returns, and has claimed every listed partition whose record has the etag. -/
def ClaimsStored (server : KVServer) (w : KVWorld) (records : List Record)
    (ownerships : List Ownership) : Prop :=
  Ends ((claimOwnership ownerships).exec server.serve) w fun r t ↦ ∃ acquired, r = .ok acquired ∧
    t.document =
      some (acquired.foldl (fun records a ↦ (Change.claim a).apply records) records) ∧
    ∀ ownership ∈ ownerships, ∀ record ∈ records,
      record.partitionId = ownership.partitionId → ownership.etag = some record.etag →
        ownership ∈ acquired.map Acquired.claimed

theorem ends_acquire_of_not_mayFail {ownership : Ownership} {etag : String}
    (hfail : ¬server.MayFail) (hw : w.document = some records)
    (hmem : ownership.partitionId ∈ records.map Record.partitionId) :
    Ends ((acquire ownership etag).exec server.serve) w fun r t ↦ ∃ a, r = .ok a ∧
      a.claimed = ownership ∧ t.document = some ((Change.claim a).apply records) := by
  refine ends_kvRecords_bind hw (fun t₁ _ ↦ ?_) fun e t _ h ↦ absurd h hfail
  rw [if_pos hmem, Prog.ends_exec_bind, Prog.ends_exec_perform]
  dsimp only
  set a : Acquired := ⟨ownership, server.uuid t₁.clock, some (server.time t₁.clock)⟩
  refine Prog.ends_exec_bind_of ends_kvUpdate ?_ ?_
  · rintro _ t ⟨-, ⟨hdocument, -⟩ | ⟨-, h, -⟩⟩
    · exact ⟨a, rfl, rfl, hdocument⟩
    · exact absurd h hfail
  · rintro e t ⟨-, ⟨-, h | ⟨h, -⟩⟩ | ⟨-, h, -⟩⟩
    · exact absurd h error_ne_ok
    · exact absurd h hfail
    · exact absurd h hfail

theorem ends_claimEach_of_not_mayFail {etags : List String} {ownerships : List Ownership}
    (hfail : ¬server.MayFail) (hw : w.document = some records)
    (hmem : ∀ ownership ∈ ownerships, ownership.partitionId ∈ records.map Record.partitionId)
    (hetags : ∀ ownership ∈ ownerships, ∃ etag, etagAt etags ownership.partitionId = .ok etag) :
    Ends ((claimEach etags ownerships).exec server.serve) w fun r t ↦ ∃ acquired,
      r = .ok acquired ∧
      t.document =
        some (acquired.foldl (fun records a ↦ (Change.claim a).apply records) records) ∧
      ∀ ownership ∈ ownerships, ∀ etag, etagAt etags ownership.partitionId = .ok etag →
        ownership.etag = some etag → ownership ∈ acquired.map Acquired.claimed := by
  induction ownerships generalizing w records with
  | nil => exact ⟨[], rfl, hw, fun _ h ↦ absurd h List.not_mem_nil⟩
  | cons ownership ownerships ih =>
    rw [List.forall_mem_cons] at hmem hetags
    obtain ⟨⟨etag, hetag⟩, hetags⟩ := hetags
    rw [claimEach, Prog.ends_exec_bind, Prog.ends_exec_lift, hetag]
    dsimp only
    split_ifs with hequal
    · refine Prog.ends_exec_bind_of (ends_acquire_of_not_mayFail hfail hw hmem.1) ?_ ?_
      · rintro a t ⟨_, ⟨⟩, hclaimed, hdocument⟩
        have hids : ∀ other ∈ ownerships, other.partitionId ∈
            ((Change.claim a).apply records).map Record.partitionId := by
          intro other hother
          rw [Change.apply, map_partitionId_modifyRecord (f := a.edit) fun _ ↦ rfl]
          exact hmem.2 other hother
        refine Prog.ends_exec_bind_of (ih hdocument hids hetags) ?_ ?_
        · rintro rest t' ⟨_, ⟨⟩, hdocument', hall⟩
          refine ⟨a :: rest, rfl, hdocument', fun other hother etag' hetag' hequal' ↦ ?_⟩
          rw [List.map_cons, List.mem_cons]
          rcases List.mem_cons.mp hother with rfl | hother
          · exact Or.inl hclaimed.symm
          · exact Or.inr (hall other hother etag' hetag' hequal')
        · rintro e t' ⟨rest, h, -⟩
          exact absurd h error_ne_ok
      · rintro e t ⟨a, h, -⟩
        exact absurd h error_ne_ok
    · refine (ih hw hmem.2 hetags).mono ?_
      rintro r t ⟨acquired, hr, hdocument, hall⟩
      refine ⟨acquired, hr, hdocument, fun other hother etag' hetag' hequal' ↦ ?_⟩
      rcases List.mem_cons.mp hother with rfl | hother
      · obtain rfl := Except.ok.inj (hetag.symm.trans hetag')
        exact absurd hequal' hequal
      · exact hall other hother etag' hetag' hequal'

/-- The loop raises at a partition that is not in the table. -/
theorem ends_claimEach_of_error {etags : List String} {ownerships : List Ownership}
    {ownership : Ownership} (hownership : ownership ∈ ownerships) {e : PyError}
    (he : etagAt etags ownership.partitionId = .error e) :
    Ends ((claimEach etags ownerships).exec server.serve) w fun r _ ↦ ∃ e, r = .error e := by
  induction ownerships generalizing w with
  | nil => exact absurd hownership List.not_mem_nil
  | cons other ownerships ih =>
    rw [claimEach, Prog.ends_exec_bind, Prog.ends_exec_lift]
    cases hother : etagAt etags other.partitionId with
    | error e' => exact ⟨e', rfl⟩
    | ok etag =>
      have hrest : ownership ∈ ownerships := by
        refine (List.mem_cons.mp hownership).resolve_left ?_
        rintro rfl
        rw [he] at hother
        cases hother
      dsimp only
      split_ifs with hequal
      · rw [Prog.ends_exec_bind]
        refine Ends.intro (fun a t _ ↦ ?_) fun e' t _ ↦ ⟨e', rfl⟩
        dsimp only
        rw [Prog.ends_exec_bind]
        refine (ih hrest).mono ?_
        rintro r t' ⟨e', rfl⟩
        exact ⟨e', rfl⟩
      · exact ih hrest

theorem exists_etagArr {n : ℕ} (hids : (records.map Record.partitionId).Perm (List.range n)) :
    ∃ etags, etagArr records = .ok etags ∧
      (∀ record ∈ records, etagAt etags record.partitionId = .ok record.etag) ∧
      ∀ i, n ≤ i → etagAt etags i = .error .indexError := by
  have hlength : records.length = n := by
    rw [← List.length_map (f := Record.partitionId), hids.length_eq, List.length_range]
  have hlt : ∀ record ∈ records,
      record.partitionId < (List.replicate records.length "").length := by
    intro record hrecord
    rw [List.length_replicate, hlength]
    exact List.mem_range.mp (hids.mem_iff.mp (List.mem_map_of_mem hrecord))
  obtain ⟨etags, hgo, hmem, hnot⟩ :=
    getElem?_of_etagArr_go (hids.nodup_iff.mpr List.nodup_range) hlt
  refine ⟨etags, hgo, fun record hrecord ↦ ?_, fun i hi ↦ ?_⟩
  · rw [etagAt, hmem record hrecord]
  · have hnew : i ∉ records.map Record.partitionId := by
      rw [hids.mem_iff, List.mem_range]
      exact Nat.not_lt.mpr hi
    have hnone : (List.replicate records.length "")[i]? = none := by
      rw [List.getElem?_eq_none_iff, List.length_replicate, hlength]
      exact hi
    rw [etagAt, hnot i hnew, hnone]

/-- A list is claimed if and only if each of its partitions has a record. -/
theorem claimsStored_iff_of_perm (hfail : ¬server.MayFail) {n : ℕ}
    (hw : w.document = some records)
    (hids : (records.map Record.partitionId).Perm (List.range n)) {ownerships : List Ownership} :
    ClaimsStored server w records ownerships ↔
      ∀ ownership ∈ ownerships, ownership.partitionId < n := by
  obtain ⟨etags, hetags, hstored, hnew⟩ := exists_etagArr hids
  constructor
  · intro hclaims ownership hownership
    by_contra hge
    have hraises : Ends ((claimOwnership ownerships).exec server.serve) w
        fun r _ ↦ ∃ e, r = .error e := by
      refine ends_kvRecords_bind hw (fun t _ ↦ ?_) fun e t _ _ ↦ ⟨e, rfl⟩
      rw [hetags]
      exact ends_claimEach_of_error hownership (hnew _ (Nat.not_lt.mp hge))
    obtain ⟨r, t, ⟨acquired, hr, -⟩, e, he⟩ := (hclaims.and hraises).exists
    exact error_ne_ok (he.symm.trans hr)
  · intro hknown
    have hrecord : ∀ ownership ∈ ownerships, ownership.partitionId ∈
        records.map Record.partitionId := fun ownership hownership ↦
      hids.mem_iff.mpr (List.mem_range.mpr (hknown ownership hownership))
    refine ends_kvRecords_bind hw (fun t hkept ↦ ?_) fun e t _ h ↦ absurd h hfail
    rw [hetags]
    refine (ends_claimEach_of_not_mayFail hfail (hkept.document.trans hw) hrecord
      fun ownership hownership ↦ ?_).mono ?_
    · obtain ⟨record, hmem, hid⟩ := List.mem_map.mp (hrecord ownership hownership)
      exact ⟨record.etag, hid ▸ hstored record hmem⟩
    · rintro r t ⟨acquired, hr, hdocument, hall⟩
      refine ⟨acquired, hr, hdocument, fun ownership hownership record hmem hid hetag ↦ ?_⟩
      exact hall ownership hownership record.etag (hid ▸ hstored record hmem) hetag

/-- **New partitions.** What the ownership manager makes of a listing of the partitions below `n` is
claimed if and only if every partition that it draws is one of these. -/
theorem claimsStored_iff (hfail : ¬server.MayFail) {n : ℕ} (hw : w.document = some records)
    (hids : (records.map Record.partitionId).Perm (List.range n)) (manager : OwnershipManager)
    (draws : Draws) (now : ℚ) {ownershipList : List Ownership}
    (hlisted : (ownershipList.map Ownership.partitionId).Perm (List.range n))
    (allPartitionIds : List ℕ) :
    ClaimsStored server w records
        (manager.balanceOwnership now ownershipList allPartitionIds draws) ↔
      ((manager.activeOwnershipSelf now ownershipList).length <
          manager.maxCountPerOwner now ownershipList allPartitionIds →
        ∀ pid ∈ manager.drawn now ownershipList allPartitionIds draws, pid < n) := by
  rw [claimsStored_iff_of_perm hfail hw hids]
  refine OwnershipManager.forall_mem_balanceOwnership_iff (P := (· < n)) fun ownership hmem ↦ ?_
  exact List.mem_range.mp (hlisted.mem_iff.mp (List.mem_map_of_mem hmem))

/-- While no partition has been added, every list is claimed. -/
theorem claimsStored_of_perm (hfail : ¬server.MayFail) {n : ℕ} (hw : w.document = some records)
    (hids : (records.map Record.partitionId).Perm (List.range n)) (manager : OwnershipManager)
    (draws : Draws) (now : ℚ) {ownershipList : List Ownership}
    (hlisted : (ownershipList.map Ownership.partitionId).Perm (List.range n))
    {allPartitionIds : List ℕ} (hall : allPartitionIds.Perm (List.range n)) :
    ClaimsStored server w records
      (manager.balanceOwnership now ownershipList allPartitionIds draws) := by
  have hknown : ∀ ownership ∈ ownershipList, ownership.partitionId < n := fun ownership hmem ↦
    List.mem_range.mp (hlisted.mem_iff.mp (List.mem_map_of_mem hmem))
  rw [claimsStored_iff_of_perm hfail hw hids,
    OwnershipManager.forall_mem_balanceOwnership_iff (P := (· < n)) hknown]
  intro _ pid hpid
  have hclaimable := OwnershipManager.drawn_subset now allPartitionIds hpid
  rcases OwnershipManager.partitionId_mem_of_mem_claimablePartitionIds hclaimable with hmem | hmem
  · exact List.mem_range.mp (hall.mem_iff.mp hmem)
  · exact List.mem_range.mp (hlisted.mem_iff.mp hmem)

end Claims

/-! ## An event hub with a second partition -/

theorem not_mayFail_reliableServer : ¬reliableServer.MayFail := by
  rintro ⟨k, h | h⟩ <;> cases h

/-- The first of the population, and the last of a sequence. -/
def someDraws : Draws where
  sample ids k := ids.take k
  sample_subperm ids k := (List.take_sublist k ids).subperm
  length_sample _ _ h := List.length_take_of_le h
  index n := n - 1
  index_lt _ h := Nat.sub_lt h Nat.one_pos

/-- The only record, of a partition that nobody owns. -/
def freeRecord : Record := ⟨0, "", "etag", 0, "", 0⟩

def freeOwnership : Ownership := ⟨someHub, 0, "", some "etag", some 0⟩

def managerWith (strategy : LoadBalancingStrategy) : OwnershipManager :=
  ⟨someHub, "me", 300, strategy⟩

/-- The stored partition is drawn, and claimed. -/
theorem claimsStored_balanced : ClaimsStored reliableServer ⟨some [freeRecord], 0⟩ [freeRecord]
    ((managerWith .balanced).balanceOwnership 0 [freeOwnership] [0, 1] someDraws) :=
  (claimsStored_iff (n := 1) not_mayFail_reliableServer rfl (by decide) _ _ _ (by decide) _).mpr
    (by decide +kernel)

/-- The new partition is drawn before it, and the claim raises. -/
theorem not_claimsStored_greedy :
    ¬ClaimsStored reliableServer ⟨some [freeRecord], 0⟩ [freeRecord]
      ((managerWith .greedy).balanceOwnership 0 [freeOwnership] [0, 1] someDraws) := by
  intro hclaims
  have hknown := (claimsStored_iff_of_perm (n := 1) not_mayFail_reliableServer rfl (by decide)).mp
    hclaims ⟨someHub, 1, "me", none, none⟩ (by decide +kernel)
  exact absurd hknown (by decide)

end KVCheckpointStore

end MsSecurity
