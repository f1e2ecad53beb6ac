import MsSecurity.Secrets.SectionNames

/-!
# Reading passwords

`get_password` goes through all stanzas of the realm, in whichever order they come. What it finds
for a user is put together from the sections of that user (`clearOf`), and a stanza that is stored
whole counts only for a user without sections.

* `Tidy.ends_getPassword`: what is read of a tidy store.
-/

namespace MsSecurity

namespace CredentialManager

variable (manager : CredentialManager)

/-- The stanzas of the realm are those of users and of their sections, and there is one of each. -/
structure Tidy (passwords : Passwords) : Prop where
  nodup : (passwords.map Prod.fst).Nodup
  shape : ∀ {name}, (manager.realm, name) ∈ passwords.map Prod.fst → PlainName name ∨
    ∃ user index, PlainName user ∧ 0 < index ∧ name = partialUser user index

theorem tidy_nil : manager.Tidy [] := ⟨List.nodup_nil, fun h ↦ absurd h List.not_mem_nil⟩

/-- The sections of a name, with their numbers. -/
def sectionsNamed (passwords : Passwords) (name : String) : List (ℕ × String) :=
  passwords.filterMap fun p ↦
    (sectionOf p).bind fun (actualName, index) ↦
      if actualName = name then some (index, p.clearPassword) else none

/-- The stanzas of the realm. -/
def inRealm (passwords : Passwords) : Passwords := passwords.filter fun p ↦ p.realm = manager.realm

/-- The password of a user, if there is one. -/
def clearOf (passwords : Passwords) (user : String) : Option String :=
  let clears := sectionsNamed (manager.inRealm passwords) (manager.stanzaName user)
  if clears ≠ [] then
    some (joinSections clears ((clears.map Prod.fst).insertionSort (· ≤ ·)))
  else passwords.lookup (manager.realm, user)

/-! ## The first loop -/

section Loops

variable {passwords : Passwords} {results : Results} {name : String} {stanza : ClearStanza}
  {p : StoragePassword} {index : ℕ}

theorem mem_sectionsNamed_iff {text : String} : (index, text) ∈ sectionsNamed passwords name ↔
    ∃ p ∈ passwords, sectionOf p = some (name, index) ∧ p.clearPassword = text := by
  rw [sectionsNamed, List.mem_filterMap]
  refine exists_congr fun p ↦ and_congr_right fun _ ↦ ?_
  cases sectionOf p with
  | none => simp
  | some found =>
    obtain ⟨actualName, i⟩ := found
    rw [Option.bind_some]
    dsimp only
    split_ifs with hname
    · rw [hname, Option.some.injEq, Option.some.injEq, Prod.mk.injEq, Prod.mk.injEq,
        and_iff_right rfl]
    · simp [hname]

/-- What the first loop has collected under a name. -/
structure Collected (passwords : Passwords) (name : String) (stanza : ClearStanza) : Prop where
  ne : sectionsNamed passwords name ≠ []
  clears : stanza.clears = dictOf (sectionsNamed passwords name)
  source : ∃ p ∈ passwords, (sectionOf p).map Prod.fst = some name ∧ stanza.realm = p.realm ∧
    stanza.username = String.ofList (beforeSep p.username.toList)

/-- The results so far are what is collected of the stanzas so far. -/
structure CollectedIn (passwords : Passwords) (results : Results) : Prop where
  collected : ∀ {name stanza}, results.lookup name = some stanza → Collected passwords name stanza
  nothing : ∀ {name}, results.lookup name = none → sectionsNamed passwords name = []

theorem sectionsNamed_concat (passwords : Passwords) (p : StoragePassword) (name : String) :
    sectionsNamed (passwords ++ [p]) name =
      sectionsNamed passwords name ++ sectionsNamed [p] name := List.filterMap_append

theorem Collected.concat (h : Collected passwords name stanza)
    (hp : sectionsNamed [p] name = []) : Collected (passwords ++ [p]) name stanza := by
  obtain ⟨hne, hclears, q, hq, hsource⟩ := h
  have happend := sectionsNamed_concat passwords p name
  rw [hp, List.append_nil] at happend
  exact ⟨happend ▸ hne, happend ▸ hclears, q, List.mem_append_left _ hq, hsource⟩

theorem CollectedIn.addSection (h : CollectedIn passwords results) (p : StoragePassword) :
    CollectedIn (passwords ++ [p]) (addSection results p) := by
  rw [CredentialManager.addSection]
  cases hp : sectionOf p with
  | none =>
    have hnone (name : String) : sectionsNamed [p] name = [] := by simp [sectionsNamed, hp]
    refine ⟨fun hlookup ↦ (h.collected hlookup).concat (hnone _), fun hlookup ↦ ?_⟩
    rw [sectionsNamed_concat, h.nothing hlookup, hnone, List.append_nil]
  | some found =>
    obtain ⟨actualName, index⟩ := found
    have hone : sectionsNamed [p] actualName = [(index, p.clearPassword)] := by
      simp [sectionsNamed, hp]
    have hnone {name : String} (hname : name ≠ actualName) : sectionsNamed [p] name = [] := by
      simp [sectionsNamed, hp, hname.symm]
    constructor
    · intro name stanza hlookup
      rw [lookup_setKey] at hlookup
      split_ifs at hlookup with hname
      · -- the section is added to what is there
        subst hname
        obtain rfl := Option.some.inj hlookup
        have happend := sectionsNamed_concat passwords p name
        rw [hone] at happend
        have hne : sectionsNamed (passwords ++ [p]) name ≠ [] := by
          rw [happend]
          exact List.append_ne_nil_of_right_ne_nil _ (List.cons_ne_nil _ _)
        have hclears : dictOf (sectionsNamed (passwords ++ [p]) name) =
            setKey (dictOf (sectionsNamed passwords name)) index p.clearPassword := by
          rw [happend, dictOf, List.foldl_append, ← dictOf]
          rfl
        cases hbefore : results.lookup name with
        | none =>
          rw [h.nothing hbefore] at hclears
          refine ⟨hne, hclears.symm, p, List.mem_append_right _ List.mem_cons_self, ?_, rfl, rfl⟩
          rw [hp, Option.map_some]
        | some before =>
          obtain ⟨-, hcollected, q, hq, hsource⟩ := h.collected hbefore
          rw [← hcollected] at hclears
          exact ⟨hne, hclears.symm, q, List.mem_append_left _ hq, hsource⟩
      · exact (h.collected hlookup).concat (hnone hname)
    · intro name hlookup
      rw [lookup_setKey] at hlookup
      split_ifs at hlookup with hname
      rw [sectionsNamed_concat, h.nothing hlookup, hnone hname, List.append_nil]

theorem collectedIn_foldl (passwords : Passwords) :
    CollectedIn passwords (passwords.foldl addSection []) := by
  induction passwords using List.reverseRecOn with
  | nil => exact ⟨fun hlookup ↦ absurd hlookup (Option.some_ne_none _).symm, fun _ ↦ rfl⟩
  | append_singleton passwords p ih =>
    rw [List.foldl_append]
    exact ih.addSection p

theorem nodup_addSection (h : (results.map Prod.fst).Nodup) (p : StoragePassword) :
    ((addSection results p).map Prod.fst).Nodup := by
  rw [addSection]
  cases sectionOf p with
  | none => exact h
  | some found => exact nodup_setKey _ _ h

theorem nodup_addWhole (h : (results.map Prod.fst).Nodup) (p : StoragePassword) :
    ((addWhole results p).map Prod.fst).Nodup := by
  rw [addWhole]
  cases sectionOf p with
  | some found => exact h
  | none =>
    dsimp only
    split_ifs
    · exact h
    · exact nodup_setKey _ _ h

theorem nodup_foldl {f : Results → StoragePassword → Results}
    (hf : ∀ {results} p, (results.map Prod.fst).Nodup → ((f results p).map Prod.fst).Nodup)
    (h : (results.map Prod.fst).Nodup) (passwords : Passwords) :
    ((passwords.foldl f results).map Prod.fst).Nodup := by
  induction passwords generalizing results with
  | nil => exact h
  | cons p passwords ih => exact ih (hf p h)

/-! ## The second loop -/

/-- The stanza as it is stored. -/
def wholeStanza (p : StoragePassword) : ClearStanza :=
  ⟨p.name, p.realm, p.username, [], p.clearPassword⟩

/-- What is found under a name was there before, or is a stanza of this name. -/
theorem lookup_foldl_addWhole (results : Results) (passwords : Passwords) (name : String) :
    (passwords.foldl addWhole results).lookup name = (results.lookup name).or
      ((passwords.find? fun p ↦ sectionOf p = none ∧ p.name = name).map wholeStanza) := by
  induction passwords generalizing results with
  | nil => exact Option.or_none.symm
  | cons p passwords ih =>
    rw [List.foldl_cons, ih, addWhole, List.find?_cons]
    cases hp : sectionOf p with
    | some found => simp
    | none =>
      dsimp only
      by_cases hname : p.name = name
      · rw [hname, decide_eq_true ⟨rfl, rfl⟩]
        cases hlookup : results.lookup name with
        | some stanza => simp [hlookup]
        | none => simp [lookup_setKey, wholeStanza, hname]
      · rw [decide_eq_false fun h ↦ hname h.2]
        split_ifs
        · rfl
        · rw [lookup_setKey, if_neg (Ne.symm hname)]

end Loops

/-! ## Joining the sections -/

section Joining

variable {clears clears' : List (ℕ × String)}

theorem joinSections_congr {keys : List ℕ}
    (h : ∀ key ∈ keys, clears.lookup key = clears'.lookup key) :
    joinSections clears keys = joinSections clears' keys := by
  induction keys with
  | nil => rfl
  | cons key keys ih =>
    rw [List.forall_mem_cons] at h
    rw [joinSections, joinSections, h.1, ih h.2]

/-- The order in which sections are found makes no difference. -/
theorem joinSections_perm (h : clears.Perm clears') (hnodup : (clears.map Prod.fst).Nodup) :
    joinSections clears ((clears.map Prod.fst).insertionSort (· ≤ ·)) =
      joinSections clears' ((clears'.map Prod.fst).insertionSort (· ≤ ·)) := by
  have hnodup' : (clears'.map Prod.fst).Nodup := (h.map Prod.fst).nodup_iff.mp hnodup
  have hkeys : (clears.map Prod.fst).insertionSort (· ≤ ·) =
      (clears'.map Prod.fst).insertionSort (· ≤ ·) := by
    have hperm := ((List.perm_insertionSort (· ≤ ·) (clears.map Prod.fst)).trans
      (h.map Prod.fst)).trans (List.perm_insertionSort (· ≤ ·) (clears'.map Prod.fst)).symm
    exact hperm.eq_of_pairwise' (List.pairwise_insertionSort _ _) (List.pairwise_insertionSort _ _)
  rw [hkeys]
  refine joinSections_congr fun key _ ↦ Option.ext fun text ↦ ?_
  rw [← mem_iff_lookup hnodup, ← mem_iff_lookup hnodup', h.mem_iff]

end Joining

/-! ## A tidy store -/

section Tidy

variable {manager : CredentialManager} {passwords : Passwords} {user : String} {index : ℕ}
  {text : String} {p : StoragePassword}

theorem mem_inRealm_iff :
    p ∈ manager.inRealm passwords ↔ p ∈ passwords ∧ p.realm = manager.realm := by
  rw [inRealm, List.mem_filter, decide_eq_true_iff]

theorem Tidy.fst_eq_of_sectionOf (h : manager.Tidy passwords) (huser : PlainName user)
    (hp : p ∈ manager.inRealm passwords)
    (hsection : sectionOf p = some (manager.stanzaName user, index)) :
    p.1 = (manager.realm, partialUser user index) ∧ 0 < index := by
  obtain ⟨⟨realm, username⟩, text⟩ := p
  obtain ⟨hmem, hrealm⟩ := mem_inRealm_iff.mp hp
  obtain rfl : realm = manager.realm := hrealm
  rcases h.shape (List.mem_map_of_mem hmem) with hplain | ⟨other, i, hother, hi, rfl⟩
  · rw [sectionOf_eq_none manager hplain] at hsection
    exact absurd hsection (Option.some_ne_none _).symm
  · rw [sectionOf_partialUser manager hother, Option.some.injEq, Prod.mk.injEq] at hsection
    obtain ⟨hname, rfl⟩ := hsection
    obtain rfl := manager.stanzaName_injective hname
    exact ⟨rfl, hi⟩

theorem Tidy.mem_sectionsNamed_iff (h : manager.Tidy passwords) (huser : PlainName user) :
    (index, text) ∈ sectionsNamed (manager.inRealm passwords) (manager.stanzaName user) ↔
      0 < index ∧ passwords.lookup (manager.realm, partialUser user index) = some text := by
  rw [CredentialManager.mem_sectionsNamed_iff, ← mem_iff_lookup h.nodup]
  constructor
  · rintro ⟨⟨key, text'⟩, hp, hsection, rfl⟩
    obtain ⟨rfl, hi⟩ := h.fst_eq_of_sectionOf huser hp hsection
    exact ⟨hi, (mem_inRealm_iff.mp hp).1⟩
  · rintro ⟨_, hmem⟩
    exact ⟨_, mem_inRealm_iff.mpr ⟨hmem, rfl⟩, sectionOf_partialUser manager huser index text, rfl⟩

theorem Tidy.nodup_sectionsNamed (h : manager.Tidy passwords) (huser : PlainName user) :
    ((sectionsNamed (manager.inRealm passwords) (manager.stanzaName user)).map
      Prod.fst).Nodup := by
  have hnodup : (manager.inRealm passwords).Pairwise fun p q ↦ p.1 ≠ q.1 :=
    (List.pairwise_map.mp h.nodup).filter _
  refine List.pairwise_map.mpr (List.pairwise_filterMap.mpr (hnodup.imp_of_mem ?_))
  rintro p q hp hq hne ⟨i, text⟩ hi ⟨j, text'⟩ hj rfl
  have hfound {p : StoragePassword} {text : String}
      (hp : ((sectionOf p).bind fun (actualName, index) ↦
        if actualName = manager.stanzaName user then some (index, p.clearPassword) else none) =
          some (i, text)) : sectionOf p = some (manager.stanzaName user, i) := by
    obtain ⟨⟨actualName, index⟩, hsection, hsome⟩ := Option.bind_eq_some_iff.mp hp
    dsimp only at hsome
    split_ifs at hsome with hname
    obtain ⟨rfl, -⟩ := Prod.mk.inj (Option.some.inj hsome)
    rw [hsection, hname]
  have hpname := (h.fst_eq_of_sectionOf huser hp (hfound hi)).1
  have hqname := (h.fst_eq_of_sectionOf huser hq (hfound hj)).1
  exact hne (hpname.trans hqname.symm)

theorem Tidy.listing (h : manager.Tidy passwords) :
    manager.Tidy (manager.order (manager.inRealm passwords)) := by
  have hperm := manager.perm (manager.inRealm passwords)
  refine ⟨(hperm.map Prod.fst).nodup_iff.mpr ?_, fun hname ↦ h.shape ?_⟩
  · exact h.nodup.sublist (List.filter_sublist.map _)
  · exact (List.filter_sublist.map _).subset ((hperm.map Prod.fst).mem_iff.mp hname)

/-- What is found for a user depends on what is stored under its names. -/
theorem Tidy.clearOf_congr {passwords' : Passwords} (h : manager.Tidy passwords)
    (h' : manager.Tidy passwords') (huser : PlainName user)
    (hsame : ∀ name, (name = user ∨ ∃ index, name = partialUser user index) →
      passwords.lookup (manager.realm, name) = passwords'.lookup (manager.realm, name)) :
    manager.clearOf passwords user = manager.clearOf passwords' user := by
  have hperm : (sectionsNamed (manager.inRealm passwords) (manager.stanzaName user)).Perm
      (sectionsNamed (manager.inRealm passwords') (manager.stanzaName user)) := by
    refine (List.perm_ext_iff_of_nodup (List.Nodup.of_map _ (h.nodup_sectionsNamed huser))
      (List.Nodup.of_map _ (h'.nodup_sectionsNamed huser))).mpr fun ⟨index, text⟩ ↦ ?_
    rw [h.mem_sectionsNamed_iff huser, h'.mem_sectionsNamed_iff huser,
      hsame _ (Or.inr ⟨index, rfl⟩)]
  rw [clearOf, clearOf, joinSections_perm hperm (h.nodup_sectionsNamed huser),
    hsame user (Or.inl rfl)]
  refine if_congr (not_congr ?_) rfl rfl
  rw [← List.length_eq_zero_iff, ← List.length_eq_zero_iff, hperm.length_eq]

theorem Tidy.clearOf_listing (h : manager.Tidy passwords) (huser : PlainName user) :
    manager.clearOf (manager.order (manager.inRealm passwords)) user =
      manager.clearOf passwords user := by
  refine h.listing.clearOf_congr h huser fun name _ ↦ Option.ext fun text ↦ ?_
  rw [← mem_iff_lookup h.listing.nodup, ← mem_iff_lookup h.nodup,
    (manager.perm (manager.inRealm passwords)).mem_iff, mem_inRealm_iff]
  exact and_iff_left rfl

end Tidy

/-! ## What is read -/

section Results

variable {manager : CredentialManager} {passwords : Passwords} {user name text : String}
  {stanza : ClearStanza}

/-- The two loops. -/
def collect (passwords : Passwords) : Results :=
  passwords.foldl addWhole (passwords.foldl addSection [])

theorem nodup_collect (passwords : Passwords) : ((collect passwords).map Prod.fst).Nodup := by
  have hempty : (([] : Results).map Prod.fst).Nodup := List.nodup_nil
  exact nodup_foldl (fun p h ↦ nodup_addWhole h p)
    (nodup_foldl (fun p h ↦ nodup_addSection h p) hempty passwords) passwords

theorem Tidy.lookup_collect (h : manager.Tidy passwords)
    (hrealm : ∀ p ∈ passwords, p.realm = manager.realm)
    (hlookup : (collect passwords).lookup name = some stanza) :
    PlainName stanza.username ∧ name = manager.stanzaName stanza.username ∧
      stanza.realm = manager.realm ∧
      manager.clearOf passwords stanza.username = some (mergeClears stanza).clearPassword := by
  have hall : manager.inRealm passwords = passwords :=
    List.filter_eq_self.mpr fun p hp ↦ decide_eq_true (hrealm p hp)
  have hcollected := collectedIn_foldl passwords
  rw [collect, lookup_foldl_addWhole, Option.or_eq_some_iff] at hlookup
  rcases hlookup with hlookup | ⟨hnone, hwhole⟩
  · obtain ⟨hne, hclears, ⟨⟨realm, username⟩, text⟩, hp, hsection, hsource, husername⟩ :=
      hcollected.collected hlookup
    obtain rfl : realm = manager.realm := hrealm _ hp
    rcases h.shape (List.mem_map_of_mem hp) with hplain | ⟨user, index, huser, -, rfl⟩
    · rw [sectionOf_eq_none manager hplain] at hsection
      exact absurd hsection (Option.some_ne_none _).symm
    · rw [sectionOf_partialUser manager huser, Option.map_some, Option.some.injEq] at hsection
      have hstanza : stanza.username = user := husername.trans (beforeSep_partialUser huser index)
      obtain rfl : manager.stanzaName user = name := hsection
      have hnodup := h.nodup_sectionsNamed huser
      rw [hall] at hnodup
      rw [dictOf_eq_self hnodup] at hclears
      rw [hstanza]
      refine ⟨huser, rfl, hsource, ?_⟩
      rw [clearOf, hall, if_pos hne, mergeClears, hclears, if_pos hne]
  · obtain ⟨⟨⟨realm, username⟩, text⟩, hfind, rfl⟩ := Option.map_eq_some_iff.mp hwhole
    have hp := List.mem_of_find?_eq_some hfind
    have hfound := List.find?_some hfind
    obtain ⟨hsection, rfl⟩ := of_decide_eq_true hfound
    obtain rfl : realm = manager.realm := hrealm _ hp
    rcases h.shape (List.mem_map_of_mem hp) with hplain | ⟨user, index, huser, -, rfl⟩
    · refine ⟨hplain, rfl, rfl, ?_⟩
      have hnothing : sectionsNamed passwords (manager.stanzaName username) = [] :=
        hcollected.nothing hnone
      change manager.clearOf passwords username = _
      rw [clearOf, hall, if_neg (not_not.mpr hnothing), (mem_iff_lookup h.nodup).mp hp]
      rfl
    · rw [sectionOf_partialUser manager huser] at hsection
      exact absurd hsection (Option.some_ne_none _)

theorem Tidy.exists_lookup_collect (h : manager.Tidy passwords)
    (hrealm : ∀ p ∈ passwords, p.realm = manager.realm) (huser : PlainName user)
    (hclear : manager.clearOf passwords user = some text) :
    ∃ stanza, (collect passwords).lookup (manager.stanzaName user) = some stanza := by
  have hall : manager.inRealm passwords = passwords :=
    List.filter_eq_self.mpr fun p hp ↦ decide_eq_true (hrealm p hp)
  refine Option.ne_none_iff_exists'.mp fun hnone ↦ ?_
  rw [collect, lookup_foldl_addWhole, Option.or_eq_none_iff, Option.map_eq_none_iff,
    List.find?_eq_none] at hnone
  have hnothing := (collectedIn_foldl passwords).nothing hnone.1
  rw [clearOf, hall, if_neg (not_not.mpr hnothing), ← mem_iff_lookup h.nodup] at hclear
  exact hnone.2 _ hclear (decide_eq_true ⟨sectionOf_eq_none manager huser text, rfl⟩)

theorem realm_listing {p : StoragePassword}
    (hp : p ∈ manager.order (manager.inRealm passwords)) : p.realm = manager.realm :=
  (mem_inRealm_iff.mp ((manager.perm (manager.inRealm passwords)).mem_iff.mp hp)).2

/-- **What is read.** The stanzas returned are those of users with a password. -/
theorem Tidy.mem_clearPasswords (h : manager.Tidy passwords)
    (hmem : stanza ∈ clearPasswords (manager.order (manager.inRealm passwords))) :
    PlainName stanza.username ∧ stanza.realm = manager.realm ∧
      manager.clearOf passwords stanza.username = some stanza.clearPassword := by
  obtain ⟨⟨name, found⟩, hfound, rfl⟩ := List.mem_map.mp hmem
  have hlookup := (mem_iff_lookup (nodup_collect _)).mp hfound
  obtain ⟨hplain, -, hrealm, hclear⟩ := h.listing.lookup_collect (fun p ↦ realm_listing) hlookup
  have hsame : (mergeClears found).username = found.username ∧
      (mergeClears found).realm = found.realm := by
    rw [mergeClears]
    split_ifs
    · exact ⟨rfl, rfl⟩
    · exact ⟨rfl, rfl⟩
  rw [hsame.1, hsame.2, ← h.clearOf_listing hplain]
  exact ⟨hplain, hrealm, hclear⟩

theorem Tidy.exists_mem_clearPasswords (h : manager.Tidy passwords) (huser : PlainName user)
    (hclear : manager.clearOf passwords user = some text) :
    ∃ stanza ∈ clearPasswords (manager.order (manager.inRealm passwords)),
      stanza.username = user := by
  rw [← h.clearOf_listing huser] at hclear
  obtain ⟨found, hlookup⟩ := h.listing.exists_lookup_collect (fun p ↦ realm_listing) huser hclear
  have hname := (h.listing.lookup_collect (fun p ↦ realm_listing) hlookup).2.1
  refine ⟨mergeClears found, List.mem_map.mpr ⟨_, (mem_iff_lookup (nodup_collect _)).mpr hlookup,
    rfl⟩, ?_⟩
  rw [mergeClears]
  split_ifs
  · exact (manager.stanzaName_injective hname).symm
  · exact (manager.stanzaName_injective hname).symm

/-- What `get_password` returns, or raises. -/
def readResult : Option String → Except PyError String
  | some text => .ok text
  | none => .error credentialNotExist

theorem Tidy.find?_clearPasswords (h : manager.Tidy passwords) (huser : PlainName user) :
    ((clearPasswords (manager.order (manager.inRealm passwords))).find?
      fun p ↦ p.username = user ∧ p.realm = manager.realm).map ClearStanza.clearPassword =
        manager.clearOf passwords user := by
  cases hfind : (clearPasswords (manager.order (manager.inRealm passwords))).find?
      fun p ↦ p.username = user ∧ p.realm = manager.realm with
  | some stanza =>
    have hfound := List.find?_some hfind
    obtain ⟨rfl, -⟩ := of_decide_eq_true hfound
    exact (h.mem_clearPasswords (List.mem_of_find?_eq_some hfind)).2.2.symm
  | none =>
    cases hclear : manager.clearOf passwords user with
    | none => rfl
    | some text =>
      obtain ⟨stanza, hmem, rfl⟩ := h.exists_mem_clearPasswords huser hclear
      have hnot := List.find?_eq_none.mp hfind stanza hmem
      exact absurd (decide_eq_true ⟨rfl, (h.mem_clearPasswords hmem).2.1⟩) hnot

/-- **A password is read.** -/
theorem Tidy.ends_getPassword (h : manager.Tidy passwords) (huser : PlainName user)
    {Q : Except PyError String → Passwords → Prop} :
    Ends (manager.getPassword user) passwords Q ↔
      Q (readResult (manager.clearOf passwords user)) passwords := by
  rw [getPassword, getClearPasswords, getRawPasswords, bind_assoc, bind_assoc, ends_get_bind,
    pure_bind, pure_bind, ← inRealm, ← h.find?_clearPasswords huser]
  cases (clearPasswords (manager.order (manager.inRealm passwords))).find?
      fun p ↦ p.username = user ∧ p.realm = manager.realm with
  | some stanza => exact ends_pure _
  | none => exact ends_throw _

end Results

end CredentialManager

end MsSecurity
