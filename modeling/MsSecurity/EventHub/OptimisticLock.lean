import MsSecurity.EventHub.Interleaving

/-!
# Optimistic locking

An ownership is claimed against the etag it was listed with, and of all the calls that claim a
partition against one etag at most one is to return it. `claim_ownership` compares the etag with the
document it reads first, reads the document again and writes it unconditionally. So the etag is an
exclusive ticket in the runs in which no claim comes between a comparison and its write
(`exclusive_of_etagStands`), and two processors that interleave there both acquire the partition
(`claimed_twice`).

Throughout, an etag is a value `uuid4` returned once; it is with a call that has not written it yet,
or stored for a partition, or it has been claimed against, and never two of these.
-/

namespace MsSecurity

/-- The etag of each partition's record. -/
def etagsOf (records : List Record) : List (ℕ × String) :=
  records.map fun record ↦ (record.partitionId, record.etag)

theorem map_fst_etagsOf (records : List Record) :
    (etagsOf records).map Prod.fst = records.map Record.partitionId := by
  rw [etagsOf, List.map_map]
  rfl

theorem etagsOf_checkpoint (c : Checkpoint) (records : List Record) :
    etagsOf (Change.apply (.checkpoint c) records) = etagsOf records := by
  rw [Change.apply]
  induction records with
  | nil => rfl
  | cons r records ih =>
    rw [modifyRecord]
    split_ifs
    · rfl
    · rw [etagsOf, List.map_cons, ← etagsOf, ih]
      rfl

theorem mem_etagsOf_claim {a : Acquired} {records : List Record}
    (hnodup : (records.map Record.partitionId).Nodup) {x : ℕ × String}
    (h : x ∈ etagsOf (Change.apply (.claim a) records)) :
    x = (a.claimed.partitionId, a.etag) ∨
      x.1 ≠ a.claimed.partitionId ∧ x ∈ etagsOf records := by
  rw [Change.apply, modifyRecord_eq_map hnodup, etagsOf, List.map_map] at h
  obtain ⟨r, hr, rfl⟩ := List.mem_map.mp h
  rw [Function.comp_apply]
  split_ifs with hp
  · exact Or.inl (Prod.ext hp rfl)
  · exact Or.inr ⟨hp, List.mem_map_of_mem hr⟩

namespace StorePool

/-! ## Exclusion, and what it takes -/

/-- At most one call returns an ownership of a partition claimed against an etag. -/
def Exclusive (p : StorePool) : Prop :=
  ∀ (i j : ℕ) (ci cj : StoreCall) (acquired acquired' : List Acquired),
    p.threads[i]? = some ⟨ci, .pure acquired⟩ → p.threads[j]? = some ⟨cj, .pure acquired'⟩ →
    ∀ a ∈ acquired, ∀ b ∈ acquired', a.claimed.partitionId = b.claimed.partitionId →
      ∀ etag, a.claimed.etag = some etag → b.claimed.etag = some etag → i = j

/-- A write finds the etags as its call read them last. -/
def EtagsLand (p : StorePool) : StoreAction → Prop
  | .start _ => True
  | .act i _ => ∀ change records, p.request i = some (.update change records) →
      (p.world.lastRead i).map etagsOf = some (etagsOf p.world.records)

/-- A claim is written while the etag it was compared with is still the stored one. -/
def EtagStands (p : StorePool) : StoreAction → Prop
  | .start _ => True
  | .act i _ => ∀ change records, p.request i = some (.update change records) →
      ∀ a, change = .claim a → ∃ record ∈ p.world.records,
        record.partitionId = a.claimed.partitionId ∧ a.claimed.etag = some record.etag

instance decidableForallUpdate (request : Option Request) (P : Change → List Record → Prop)
    [∀ change records, Decidable (P change records)] :
    Decidable (∀ change records, request = some (.update change records) → P change records) :=
  match request with
  | some (.update change records) =>
    decidable_of_iff (P change records) ⟨fun h _ _ heq ↦ by cases heq; exact h, fun h ↦ h _ _ rfl⟩
  | some .get => isTrue fun _ _ heq ↦ (nomatch heq)
  | some .stamp => isTrue fun _ _ heq ↦ (nomatch heq)
  | some .delete => isTrue fun _ _ heq ↦ (nomatch heq)
  | some (.selectElements _ _) => isTrue fun _ _ heq ↦ (nomatch heq)
  | none => isTrue fun _ _ heq ↦ (nomatch heq)

instance decidableForallClaim (change : Change) (P : Acquired → Prop) [∀ a, Decidable (P a)] :
    Decidable (∀ a, change = .claim a → P a) :=
  match change with
  | .claim a => decidable_of_iff (P a) ⟨fun h _ heq ↦ by cases heq; exact h, fun h ↦ h _ rfl⟩
  | .checkpoint _ => isTrue fun _ heq ↦ (nomatch heq)
  | .initial _ => isTrue fun _ heq ↦ (nomatch heq)

instance (p : StorePool) : (a : StoreAction) → Decidable (p.Fresh a)
  | .start _ => isTrue trivial
  | .act i stamp =>
    inferInstanceAs (Decidable (p.request i = some .stamp → stamp.1 ∉ p.world.issued))

instance (p : StorePool) : (a : StoreAction) → Decidable (p.EtagsLand a)
  | .start _ => isTrue trivial
  | .act i _ => decidableForallUpdate (p.request i) fun _ _ ↦
      (p.world.lastRead i).map etagsOf = some (etagsOf p.world.records)

instance (p : StorePool) : (a : StoreAction) → Decidable (p.EtagStands a)
  | .start _ => isTrue trivial
  | .act i _ => decidableForallUpdate (p.request i) fun change _ ↦
      ∀ a, change = .claim a → ∃ record ∈ p.world.records,
        record.partitionId = a.claimed.partitionId ∧ a.claimed.etag = some record.etag

/-- An ownership of the partition has been written that was claimed against the etag. -/
def Claimed (w : StoreWorld) (partitionId : ℕ) (etag : String) : Prop :=
  ∃ i a, (i, Change.claim a) ∈ w.log ∧ a.claimed.partitionId = partitionId ∧
    a.claimed.etag = some etag

/-- Every etag is with one call, or stored, or claimed against once. -/
structure EtagsOnce (ids : List ℕ) (w : StoreWorld) : Prop where
  ids : w.records.map Record.partitionId = ids
  stored_issued : ∀ x ∈ etagsOf w.records, x.2 ∈ w.issued
  claimed_issued : ∀ {p e}, Claimed w p e → e ∈ w.issued
  pending_issued : ∀ {i e}, w.pending i = some e → e ∈ w.issued
  stored_unclaimed : ∀ x ∈ etagsOf w.records, ¬Claimed w x.1 x.2
  pending_unclaimed : ∀ {i e}, w.pending i = some e → ∀ p, ¬Claimed w p e
  pending_unstored : ∀ {i e}, w.pending i = some e → ∀ x ∈ etagsOf w.records, x.2 ≠ e
  pending_inj : ∀ {i j e}, w.pending i = some e → w.pending j = some e → i = j
  claimed_once : ∀ {i j a b e}, (i, Change.claim a) ∈ w.log → (j, Change.claim b) ∈ w.log →
    a.claimed.partitionId = b.claimed.partitionId → a.claimed.etag = some e →
    b.claimed.etag = some e → i = j

variable {ids : List ℕ} {w w' : StoreWorld}

section Bookkeeping

variable {pending : ℕ → Option String} {log : List (ℕ × Change)} {i j : ℕ} {e : String}

theorem update_some_eq_some {etag : String}
    (h : Function.update pending i (some etag) j = some e) :
    j = i ∧ e = etag ∨ j ≠ i ∧ pending j = some e := by
  by_cases hji : j = i
  · rw [hji, Function.update_self] at h
    exact Or.inl ⟨hji, (Option.some.inj h).symm⟩
  · rw [Function.update_of_ne hji] at h
    exact Or.inr ⟨hji, h⟩

theorem update_none_eq_some (h : Function.update pending i none j = some e) :
    j ≠ i ∧ pending j = some e := by
  by_cases hji : j = i
  · rw [hji, Function.update_self] at h
    cases h
  · rw [Function.update_of_ne hji] at h
    exact ⟨hji, h⟩

theorem mem_log_concat {change : Change} {b : Acquired}
    (h : (j, Change.claim b) ∈ log ++ [(i, change)]) :
    (j, Change.claim b) ∈ log ∨ j = i ∧ change = .claim b := by
  rcases List.mem_append.mp h with h | h
  · exact Or.inl h
  · obtain ⟨rfl, rfl⟩ := Prod.mk.inj (List.mem_singleton.mp h)
    exact Or.inr ⟨rfl, rfl⟩

end Bookkeeping

theorem Claimed.of_concat {i p : ℕ} {a : Acquired} {etag e : String}
    (hlog : w'.log = w.log ++ [(i, .claim a)]) (hetag : a.claimed.etag = some etag)
    (h : Claimed w' p e) : Claimed w p e ∨ p = a.claimed.partitionId ∧ e = etag := by
  obtain ⟨j, b, hmem, hp, he⟩ := h
  rcases mem_log_concat (hlog ▸ hmem) with hmem | ⟨-, hb⟩
  · exact Or.inl ⟨j, b, hmem, hp, he⟩
  · obtain rfl := Change.claim.inj hb
    exact Or.inr ⟨hp.symm, Option.some.inj (he.symm.trans hetag)⟩

theorem EtagsOnce.congr (h : EtagsOnce ids w) (hetags : etagsOf w'.records = etagsOf w.records)
    (hissued : w'.issued = w.issued)
    (hpending : ∀ {i e}, w'.pending i = some e → w.pending i = some e)
    (hlog : ∀ {i a}, (i, Change.claim a) ∈ w'.log → (i, Change.claim a) ∈ w.log) :
    EtagsOnce ids w' := by
  have hclaimed : ∀ {p e}, Claimed w' p e → Claimed w p e := fun ⟨i, a, hmem, ha⟩ ↦
    ⟨i, a, hlog hmem, ha⟩
  exact {
    ids := by rw [← map_fst_etagsOf, hetags, map_fst_etagsOf, h.ids]
    stored_issued := by rw [hetags, hissued]; exact h.stored_issued
    claimed_issued := fun hc ↦ by rw [hissued]; exact h.claimed_issued (hclaimed hc)
    pending_issued := fun hp ↦ by rw [hissued]; exact h.pending_issued (hpending hp)
    stored_unclaimed := by
      rw [hetags]
      exact fun x hx hc ↦ h.stored_unclaimed x hx (hclaimed hc)
    pending_unclaimed := fun hp p hc ↦ h.pending_unclaimed (hpending hp) p (hclaimed hc)
    pending_unstored := by
      rw [hetags]
      exact fun hp ↦ h.pending_unstored (hpending hp)
    pending_inj := fun hi hj ↦ h.pending_inj (hpending hi) (hpending hj)
    claimed_once := fun ha hb ↦ h.claimed_once (hlog ha) (hlog hb) }

theorem EtagsOnce.stamp (h : EtagsOnce ids w) {i : ℕ} {etag : String} (hfresh : etag ∉ w.issued) :
    EtagsOnce ids { w with
      issued := etag :: w.issued
      pending := Function.update w.pending i (some etag) } := by
  exact {
    ids := h.ids
    stored_issued := fun x hx ↦ List.mem_cons_of_mem _ (h.stored_issued x hx)
    claimed_issued := fun hc ↦ List.mem_cons_of_mem _ (h.claimed_issued hc)
    pending_issued := fun hj ↦ by
      rcases update_some_eq_some hj with ⟨-, rfl⟩ | ⟨-, hj⟩
      · exact List.mem_cons_self
      · exact List.mem_cons_of_mem _ (h.pending_issued hj)
    stored_unclaimed := h.stored_unclaimed
    pending_unclaimed := fun hj p hc ↦ by
      rcases update_some_eq_some hj with ⟨-, rfl⟩ | ⟨-, hj⟩
      · exact hfresh (h.claimed_issued hc)
      · exact h.pending_unclaimed hj p hc
    pending_unstored := fun hj x hx hxe ↦ by
      rcases update_some_eq_some hj with ⟨-, rfl⟩ | ⟨-, hj⟩
      · exact hfresh (hxe ▸ h.stored_issued x hx)
      · exact h.pending_unstored hj x hx hxe
    pending_inj := fun hj hk ↦ by
      rcases update_some_eq_some hj with ⟨rfl, rfl⟩ | ⟨-, hj'⟩
      · rcases update_some_eq_some hk with ⟨rfl, -⟩ | ⟨-, hk'⟩
        · rfl
        · exact absurd (h.pending_issued hk') hfresh
      · rcases update_some_eq_some hk with ⟨-, rfl⟩ | ⟨-, hk'⟩
        · exact absurd (h.pending_issued hj') hfresh
        · exact h.pending_inj hj' hk'
    claimed_once := h.claimed_once }

/-- A claim against the stored etag puts the etag of its call in that one's place. -/
theorem EtagsOnce.claim (h : EtagsOnce ids w) (hnodup : ids.Nodup) {i : ℕ} {a : Acquired}
    {etag : String} {records : List Record} (hetag : a.claimed.etag = some etag)
    (hstands : (a.claimed.partitionId, etag) ∈ etagsOf w.records)
    (hpending : w.pending i = some a.etag) (hland : etagsOf records = etagsOf w.records) :
    EtagsOnce ids { w with
      records := Change.apply (.claim a) records
      pending := Function.update w.pending i none
      log := w.log ++ [(i, .claim a)] } := by
  have hids : records.map Record.partitionId = ids := by
    rw [← map_fst_etagsOf, hland, map_fst_etagsOf, h.ids]
  have hstored : ∀ {x}, x ∈ etagsOf (Change.apply (.claim a) records) →
      x = (a.claimed.partitionId, a.etag) ∨ x.1 ≠ a.claimed.partitionId ∧ x ∈ etagsOf w.records :=
    fun hx ↦ hland ▸ mem_etagsOf_claim (hids ▸ hnodup) hx
  have hclaimed : ∀ {p e}, Claimed { w with log := w.log ++ [(i, .claim a)] } p e →
      Claimed w p e ∨ p = a.claimed.partitionId ∧ e = etag := fun hc ↦ hc.of_concat rfl hetag
  -- the one etag that has not been claimed against before is the stored one
  have hunclaimed := h.stored_unclaimed _ hstands
  exact {
    ids := by
      rw [← hids]
      exact map_partitionId_modifyRecord (f := a.edit) (fun _ ↦ rfl) records
    stored_issued := fun x hx ↦ by
      rcases hstored hx with rfl | ⟨-, hx⟩
      · exact h.pending_issued hpending
      · exact h.stored_issued x hx
    claimed_issued := fun hc ↦ by
      rcases hclaimed hc with hc | ⟨-, rfl⟩
      · exact h.claimed_issued hc
      · exact h.stored_issued _ hstands
    pending_issued := fun hj ↦ h.pending_issued (update_none_eq_some hj).2
    stored_unclaimed := fun x hx hc ↦ by
      rcases hstored hx with rfl | ⟨hp, hx⟩
      · rcases hclaimed hc with hc | ⟨-, rfl⟩
        · exact h.pending_unclaimed hpending _ hc
        · exact h.pending_unstored hpending _ hstands rfl
      · rcases hclaimed hc with hc | ⟨hp', -⟩
        · exact h.stored_unclaimed x hx hc
        · exact hp hp'
    pending_unclaimed := fun hj p hc ↦ by
      rcases hclaimed hc with hc | ⟨-, rfl⟩
      · exact h.pending_unclaimed (update_none_eq_some hj).2 p hc
      · exact h.pending_unstored (update_none_eq_some hj).2 _ hstands rfl
    pending_unstored := fun hj x hx hxe ↦ by
      obtain ⟨hji, hj⟩ := update_none_eq_some hj
      rcases hstored hx with rfl | ⟨-, hx⟩
      · exact hji (h.pending_inj hj (hxe ▸ hpending))
      · exact h.pending_unstored hj x hx hxe
    pending_inj := fun hj hk ↦ h.pending_inj (update_none_eq_some hj).2 (update_none_eq_some hk).2
    claimed_once := fun {j k b c e} hb hc hp hbe hce ↦ by
      rcases mem_log_concat hb with hb' | ⟨rfl, hb'⟩
      · rcases mem_log_concat hc with hc' | ⟨rfl, hc'⟩
        · exact h.claimed_once hb' hc' hp hbe hce
        · obtain rfl := Change.claim.inj hc'
          exact absurd ⟨j, b, hb', hp, hbe.trans (hce.symm.trans hetag)⟩ hunclaimed
      · obtain rfl := Change.claim.inj hb'
        rcases mem_log_concat hc with hc' | ⟨rfl, -⟩
        · exact absurd ⟨k, c, hc', hp.symm, hce.trans (hbe.symm.trans hetag)⟩ hunclaimed
        · rfl }

/-! ## Runs -/

theorem etagsOnce_serve (hnodup : ids.Nodup) {p : StorePool} {i : ℕ} {stamp : String × ℤ}
    {e : Request} {r : Answer e} (h : EtagsOnce ids p.world) (hfresh : p.Fresh (.act i stamp))
    (hland : p.EtagsLand (.act i stamp)) (hstands : p.EtagStands (.act i stamp))
    (hrequest : p.request i = some e) (hpre : (contract ids).pre (view p.world i) e)
    (hserve : p.world.serve i e stamp = some (r, w)) : EtagsOnce ids w := by
  cases e with
  | get =>
    obtain ⟨-, rfl⟩ := Prod.mk.inj (Option.some.inj hserve)
    exact h.congr rfl rfl id id
  | stamp =>
    obtain ⟨-, rfl⟩ := Prod.mk.inj (Option.some.inj hserve)
    exact h.stamp (hfresh hrequest)
  | update change records =>
    obtain ⟨-, rfl⟩ := Prod.mk.inj (Option.some.inj hserve)
    have hchange := ne_initial_of_pre hpre
    obtain ⟨read, hread, rfl, hpending⟩ := hpre
    -- the document written is the one read last, whose etags are those of the stored one
    have hetags := hland change _ hrequest
    rw [show p.world.lastRead i = some read from hread] at hetags
    replace hetags : etagsOf read = etagsOf p.world.records := Option.some.inj hetags
    cases change with
    | checkpoint c =>
      refine h.congr ((etagsOf_checkpoint c read).trans hetags) rfl
        (fun hj ↦ (update_none_eq_some hj).2) fun hmem ↦ ?_
      rcases mem_log_concat hmem with hmem | ⟨-, hc⟩
      · exact hmem
      · cases hc
    | claim a =>
      obtain ⟨record, hrecord, hp, hetag⟩ := hstands _ _ hrequest a rfl
      refine h.claim hnodup hetag (hp ▸ List.mem_map_of_mem hrecord) (hpending ?_) hetags
      rw [← h.ids, ← hp]
      exact List.mem_map_of_mem hrecord
    | initial records => exact absurd rfl (hchange records)
  | delete => cases hserve
  | selectElements p event => cases hserve

/-- **Exclusion, where the etag stands.** In every run of claims and checkpoints in which each write
finds the etags as its call read them last, and each claim is written while the etag it was compared
with is still stored, at most one call returns an ownership of a partition claimed against an
etag. -/
theorem exclusive_of_etagStands {s t : StorePool} {as : List StoreAction} (hs : s.Initial)
    (hnodup : (s.world.records.map Record.partitionId).Nodup)
    (hissued : ∀ record ∈ s.world.records, record.etag ∈ s.world.issued)
    (hrun : Run step (fun p a ↦ p.Fresh a ∧ p.EtagsLand a ∧ p.EtagStands a) s as t) :
    t.Exclusive := by
  have hnone : ∀ {p e}, ¬Claimed s.world p e := by
    rintro p e ⟨i, a, hmem, -⟩
    rw [hs.log] at hmem
    cases hmem
  have hinit : s.Sound (contract (s.world.records.map Record.partitionId)) view Returns
      (EtagsOnce (s.world.records.map Record.partitionId)) := by
    refine ⟨?_, fun {i t} ht ↦ ?_⟩
    · exact {
        ids := rfl
        stored_issued := List.forall_mem_map.mpr hissued
        claimed_issued := fun hc ↦ absurd hc hnone
        pending_issued := fun {i e} hi ↦ by rw [hs.pending] at hi; cases hi
        stored_unclaimed := fun _ _ ↦ hnone
        pending_unclaimed := fun _ _ ↦ hnone
        pending_unstored := fun {i e} hi ↦ by rw [hs.pending] at hi; cases hi
        pending_inj := fun {i j e} hi ↦ by rw [hs.pending] at hi; cases hi
        claimed_once := fun ha ↦ by rw [hs.log] at ha; cases ha }
    · rw [hs.threads] at ht
      cases ht
  have hsound := hrun.invariant (fun h hok hstep ↦ sound_step
    (I := EtagsOnce (s.world.records.map Record.partitionId)) (fun w hw ↦ hw.ids)
    (fun h hok ↦ etagsOnce_serve hnodup h hok.1 hok.2.1 hok.2.2) h hok hstep) hinit
  -- what a call returned it has written, and the log has one claim against an etag
  have hlogged := logged_of_sound hsound
  intro i j ci cj acquired acquired' hi hj a ha b hb hp etag hae hbe
  exact hsound.world.claimed_once ((hlogged i ci acquired hi).1 a ha)
    ((hlogged j cj acquired' hj).1 b hb) hp hae hbe

/-! ## Two winners

Two processors have listed partition 0 with the same etag. -/

/-- The claim of a processor. -/
def someClaim (ownerId etag : String) : Ownership where
  hub := someHub
  partitionId := 0
  ownerId := ownerId
  etag := some etag
  lastModifiedTime := some 0

/-- Only claims are started. -/
def ClaimsOnly : StoreAction → Prop
  | .start (.claimOwnership _) => True
  | .start (.updateCheckpoint _) => False
  | .act _ _ => True

instance : (a : StoreAction) → Decidable (ClaimsOnly a)
  | .start (.claimOwnership _) => isTrue trivial
  | .start (.updateCheckpoint _) => isFalse id
  | .act _ _ => isTrue trivial

/-- One claim after the other. -/
def claimsInTurn : List StoreAction :=
  [.start (.claimOwnership [someClaim "a" "e0"]), .start (.claimOwnership [someClaim "b" "e0"]),
    .act 0 ("", 0), .act 0 ("", 0), .act 0 ("e2", 1), .act 0 ("", 0), .act 1 ("", 0)]

/-- Both compare before either writes. -/
def claimsCrossing : List StoreAction :=
  [.start (.claimOwnership [someClaim "a" "e0"]), .start (.claimOwnership [someClaim "b" "e0"]),
    .act 0 ("", 0), .act 1 ("", 0), .act 0 ("", 0), .act 0 ("e2", 1), .act 0 ("", 0),
    .act 1 ("", 0), .act 1 ("e3", 2), .act 1 ("", 0)]

/-- The second call finds another etag and acquires nothing. -/
theorem exclusive_of_etagStands_claimsInTurn :
    ∃ t, Run.exec step twoPartitions claimsInTurn = some t ∧
      t.threads[1]? = some ⟨.claimOwnership [someClaim "b" "e0"], .pure []⟩ ∧ t.Exclusive :=
  ⟨_, rfl, rfl, exclusive_of_etagStands twoPartitions_initial (by decide) (by decide)
    (Run.of_exec_guarded claimsInTurn rfl)⟩

/-- Both calls return partition 0, claimed against the same etag. -/
theorem claimed_twice :
    ¬∀ (s t : StorePool) (as : List StoreAction), s.Initial →
      (s.world.records.map Record.partitionId).Nodup →
      (∀ record ∈ s.world.records, record.etag ∈ s.world.issued) →
      Run step (fun p a ↦ p.Fresh a ∧ ClaimsOnly a) s as t → t.Exclusive := by
  intro h
  obtain ⟨t, ht, hfirst, hsecond⟩ : ∃ t,
      Run.exec (Run.guarded step fun p a ↦ p.Fresh a ∧ ClaimsOnly a) twoPartitions claimsCrossing =
        some t ∧
      t.threads[0]? = some ⟨.claimOwnership [someClaim "a" "e0"],
        .pure [⟨someClaim "a" "e0", "e2", some 1⟩]⟩ ∧
      t.threads[1]? = some ⟨.claimOwnership [someClaim "b" "e0"],
        .pure [⟨someClaim "b" "e0", "e3", some 2⟩]⟩ := ⟨_, rfl, rfl, rfl⟩
  have hexclusive := h twoPartitions t claimsCrossing twoPartitions_initial (by decide) (by decide)
    (Run.of_exec_guarded _ ht)
  exact absurd (hexclusive 0 1 _ _ _ _ hfirst hsecond _ List.mem_cons_self _ List.mem_cons_self rfl
    "e0" rfl rfl) (by decide)

end StorePool

end MsSecurity
