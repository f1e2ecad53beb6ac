import MsSecurity.Secrets.ClearPasswords

/-!
# Passwords that are stored and read

Storing a password replaces the first sections of its user and the mark after them, and whatever
else is stored for the user is no longer read. The one password that does not come back is one whose
last section is the end mark itself.

* `Tidy.ends_setPassword`, `Tidy.ends_deletePassword`: what is read after a password has been set
  or deleted.
-/

namespace MsSecurity

namespace CredentialManager

/-! ## Sections -/

/-- What sections read as. -/
def untilEnd : List String → String
  | [] => ""
  | text :: rest => if text ≠ endMark then text ++ untilEnd rest else ""

/-- The last section of the password is the end mark. -/
def Swallowed (password : String) : Prop :=
  password.toList.length % splunkCredLenLimit = endMark.toList.length ∧
    endMark.toList <:+ password.toList

instance (password : String) : Decidable (Swallowed password) :=
  inferInstanceAs (Decidable (password.toList.length % splunkCredLenLimit =
    endMark.toList.length ∧ endMark.toList <:+ password.toList))

section Sections

variable {fuel : ℕ} {text : List Char}

theorem length_endMark : endMark.toList.length = 139 := by decide +kernel

/-- Only the last section can be shorter than a full one. -/
theorem endMark_mem_sectionsOf_iff (h : text.length ≤ fuel) :
    endMark ∈ sectionsOf fuel text ↔
      text.length % splunkCredLenLimit = endMark.toList.length ∧ endMark.toList <:+ text := by
  have hlimit : splunkCredLenLimit = 255 := rfl
  have hmark := length_endMark
  induction fuel generalizing text with
  | zero =>
    rw [List.length_eq_zero_iff.mp (Nat.le_zero.mp h), List.length_nil, hmark]
    exact iff_of_false List.not_mem_nil fun hzero ↦ absurd hzero.1 (by decide)
  | succ fuel ih =>
    rw [sectionsOf]
    split_ifs with hnil
    · rw [hnil, List.length_nil, hmark]
      exact iff_of_false List.not_mem_nil fun hzero ↦ absurd hzero.1 (by decide)
    · have hpositive : 0 < text.length := List.length_pos_of_ne_nil hnil
      have hdrop : (text.drop splunkCredLenLimit).length ≤ fuel := by
        rw [List.length_drop]
        omega
      refine List.mem_cons.trans ((or_congr_right (ih hdrop)).trans ?_)
      rw [List.length_drop, hmark, hlimit, ← String.toList_inj, String.toList_ofList]
      by_cases hshort : text.length ≤ 255
      · rw [List.take_of_length_le hshort, List.drop_of_length_le hshort]
        have hzero : ¬((text.length - 255) % 255 = 139 ∧ endMark.toList <:+ []) := by
          rw [Nat.sub_eq_zero_of_le hshort]
          exact fun hzero ↦ absurd hzero.1 (by decide)
        rw [or_iff_left hzero]
        constructor
        · rintro rfl
          exact ⟨by rw [hmark], List.suffix_rfl⟩
        · rintro ⟨hlength, hsuffix⟩
          exact hsuffix.eq_of_length (by omega)
      · have hne : endMark.toList ≠ text.take 255 := by
          intro heq
          have hlength := congrArg List.length heq
          rw [List.length_take, hmark] at hlength
          omega
        rw [or_iff_right hne]
        have hmod : (text.length - 255) % 255 = text.length % 255 := by omega
        rw [hmod]
        refine and_congr_right fun hlength ↦ ⟨fun hsuffix ↦ ?_, fun hsuffix ↦ ?_⟩
        · exact hsuffix.trans (List.drop_suffix _ _)
        · refine List.suffix_of_suffix_length_le hsuffix (List.drop_suffix 255 text) ?_
          rw [List.length_drop, hmark]
          omega

theorem toList_untilEnd_sectionsOf (h : text.length ≤ fuel)
    (hmark : endMark ∉ sectionsOf fuel text) :
    (untilEnd (sectionsOf fuel text ++ [endMark])).toList = text := by
  induction fuel generalizing text with
  | zero =>
    rw [List.length_eq_zero_iff.mp (Nat.le_zero.mp h)]
    rfl
  | succ fuel ih =>
    rw [sectionsOf] at hmark ⊢
    split_ifs at hmark ⊢ with hnil
    · rw [hnil]
      rfl
    · have hpositive : 0 < text.length := List.length_pos_of_ne_nil hnil
      have hlimit : splunkCredLenLimit = 255 := rfl
      rw [List.mem_cons, not_or] at hmark
      rw [List.cons_append, untilEnd, if_pos (Ne.symm hmark.1), String.toList_append,
        String.toList_ofList, ih _ hmark.2, List.take_append_drop]
      rw [List.length_drop]
      omega

theorem length_untilEnd_lt (h : text.length ≤ fuel) (hmark : endMark ∈ sectionsOf fuel text) :
    (untilEnd (sectionsOf fuel text ++ [endMark])).toList.length < text.length := by
  induction fuel generalizing text with
  | zero => exact absurd hmark List.not_mem_nil
  | succ fuel ih =>
    rw [sectionsOf] at hmark ⊢
    split_ifs at hmark ⊢ with hnil
    · exact absurd hmark List.not_mem_nil
    · have hpositive : 0 < text.length := List.length_pos_of_ne_nil hnil
      have hlimit : splunkCredLenLimit = 255 := rfl
      have hdrop : (text.drop splunkCredLenLimit).length = text.length - 255 := List.length_drop
      rw [List.cons_append, untilEnd]
      split_ifs with hfirst
      · have hrest := (List.mem_cons.mp hmark).resolve_left (Ne.symm hfirst)
        have hlt := ih (by omega) hrest
        rw [String.toList_append, String.toList_ofList, List.length_append, List.length_take]
        omega
      · exact hpositive

/-- **A password comes back**, unless it is swallowed. -/
theorem untilEnd_sections_eq_iff {password : String} :
    untilEnd (sections password) = password ↔ ¬Swallowed password := by
  have hiff := endMark_mem_sectionsOf_iff (le_refl password.toList.length)
  rw [sections, Swallowed, ← hiff]
  constructor
  · intro heq hmark
    have hlt := length_untilEnd_lt le_rfl hmark
    rw [heq] at hlt
    exact lt_irrefl _ hlt
  · exact fun hmark ↦ String.toList_inj.mp (toList_untilEnd_sectionsOf le_rfl hmark)

end Sections

/-! ## Storing -/

section Storing

variable {manager : CredentialManager} {passwords : Passwords} {user other name text : String}

theorem find?_order (h : (manager.realm, name) ∈ passwords.map Prod.fst) :
    ∃ p, (manager.order (manager.inRealm passwords)).find?
      (fun p ↦ p.realm = manager.realm ∧ p.username = name) = some p ∧
        p.1 = (manager.realm, name) := by
  obtain ⟨p, hp, hfst⟩ := List.mem_map.mp h
  have hmem : p ∈ manager.order (manager.inRealm passwords) := by
    rw [(manager.perm _).mem_iff, mem_inRealm_iff]
    exact ⟨hp, congrArg Prod.fst hfst⟩
  cases hfind : (manager.order (manager.inRealm passwords)).find?
      fun p ↦ p.realm = manager.realm ∧ p.username = name with
  | some q =>
    have hq := List.find?_some hfind
    obtain ⟨hrealm, hname⟩ := of_decide_eq_true hq
    exact ⟨q, rfl, Prod.ext hrealm hname⟩
  | none =>
    have hnot := List.find?_eq_none.mp hfind p hmem
    exact absurd (decide_eq_true ⟨congrArg Prod.fst hfst, congrArg Prod.snd hfst⟩) hnot

theorem ends_updatePassword {Q : Except PyError Unit → Passwords → Prop} :
    Ends (manager.updatePassword name text) passwords Q ↔
      Q (.ok ()) (setKey passwords (manager.realm, name) text) := by
  rw [updatePassword, ends_tryCatch, createPassword, ends_get_bind]
  by_cases hmem : (manager.realm, name) ∈ passwords.map Prod.fst
  · rw [if_pos hmem, ends_throw]
    dsimp only
    obtain ⟨p, hfind, hfst⟩ := find?_order hmem
    rw [if_pos rfl, replacePassword, getRawPasswords, bind_assoc, ends_get_bind, pure_bind,
      ← inRealm, hfind]
    dsimp only
    rw [ends_modify, setKey, if_pos hmem, hfst]
    refine iff_of_eq (congrArg (Q _) (List.map_congr_left fun q _ ↦ ?_))
    split_ifs with hq
    · rw [hq]
    · rfl
  · rw [if_neg hmem, ends_modify, setKey, if_neg hmem]

/-- The stanzas of sections, from a number on. -/
def sectionStanzas (manager : CredentialManager) (user : String) : ℕ → List String → Passwords
  | _, [] => []
  | index, text :: rest =>
    ((manager.realm, partialUser user index), text) :: sectionStanzas manager user (index + 1) rest

theorem ends_storeSections {Q : Except PyError Unit → Passwords → Prop} {index : ℕ}
    {texts : List String} :
    Ends (manager.storeSections user index texts) passwords Q ↔
      Q (.ok ()) ((manager.sectionStanzas user index texts).foldl
        (fun passwords p ↦ setKey passwords p.1 p.2) passwords) := by
  induction texts generalizing index passwords with
  | nil => exact ends_pure ()
  | cons text texts ih =>
    rw [storeSections, ends_bind, ends_updatePassword]
    exact ih

/-! ## What is stored -/

theorem Tidy.setKey (h : manager.Tidy passwords) (huser : PlainName user) {index : ℕ}
    (hindex : 0 < index) (text : String) :
    manager.Tidy (setKey passwords (manager.realm, partialUser user index) text) where
  nodup := nodup_setKey _ _ h.nodup
  shape hname := by
    rcases (mem_keys_setKey _ _ _).mp hname with heq | hmem
    · exact Or.inr ⟨user, index, huser, hindex, congrArg Prod.snd heq⟩
    · exact h.shape hmem

theorem Tidy.foldl (h : manager.Tidy passwords) (huser : PlainName user) {index : ℕ}
    (hindex : 0 < index) (texts : List String) :
    manager.Tidy ((manager.sectionStanzas user index texts).foldl
      (fun passwords p ↦ MsSecurity.setKey passwords p.1 p.2) passwords) := by
  induction texts generalizing index passwords with
  | nil => exact h
  | cons text texts ih => exact ih (h.setKey huser hindex text) (Nat.succ_pos index)

theorem lookup_foldl_of_ne {key : String × String} {index : ℕ} {texts : List String}
    (hkey : ∀ i, index ≤ i → i < index + texts.length → key ≠ (manager.realm, partialUser user i)) :
    ((manager.sectionStanzas user index texts).foldl
      (fun passwords p ↦ setKey passwords p.1 p.2) passwords).lookup key =
        passwords.lookup key := by
  induction texts generalizing index passwords with
  | nil => rfl
  | cons text texts ih =>
    rw [List.length_cons] at hkey
    rw [sectionStanzas, List.foldl_cons, ih fun i hi hlt ↦ hkey i (by omega) (by omega),
      lookup_setKey, if_neg (hkey index le_rfl (by omega))]

theorem lookup_foldl (huser : PlainName user) {index j : ℕ} {texts : List String}
    (hj : j < texts.length) :
    ((manager.sectionStanzas user index texts).foldl
      (fun passwords p ↦ setKey passwords p.1 p.2) passwords).lookup
        (manager.realm, partialUser user (index + j)) = some texts[j] := by
  induction texts generalizing index j passwords with
  | nil => exact absurd hj (Nat.not_lt_zero _)
  | cons text texts ih =>
    rw [sectionStanzas, List.foldl_cons]
    cases j with
    | zero =>
      rw [lookup_foldl_of_ne, lookup_setKey]
      · exact if_pos rfl
      · intro i hi _ heq
        obtain ⟨-, rfl⟩ := partialUser_inj huser huser (congrArg Prod.snd heq)
        exact absurd hi (Nat.not_succ_le_self _)
    | succ j =>
      rw [← Nat.add_assoc, Nat.add_right_comm]
      exact ih (Nat.lt_of_succ_lt_succ hj)

theorem insertionSort_eq_append {keys : List ℕ} (hnodup : keys.Nodup)
    (hpositive : ∀ i ∈ keys, 0 < i) {n : ℕ} (hall : ∀ j < n, 1 + j ∈ keys) :
    ∃ rest, keys.insertionSort (· ≤ ·) = List.range' 1 n ++ rest := by
  have hmem : ∀ i, i ∈ List.range' 1 n ↔ 0 < i ∧ i ≤ n := by
    intro i
    rw [List.mem_range'_1]
    omega
  refine ⟨(keys.filter (n < ·)).insertionSort (· ≤ ·), ?_⟩
  have hperm : keys.Perm (List.range' 1 n ++ (keys.filter (n < ·)).insertionSort (· ≤ ·)) := by
    refine (List.perm_ext_iff_of_nodup hnodup ?_).mpr fun i ↦ ?_
    · refine List.nodup_append.mpr ⟨List.nodup_range', ?_, ?_⟩
      · exact (List.perm_insertionSort _ _).nodup_iff.mpr (hnodup.filter _)
      · rintro i hi _ hi' rfl
        rw [List.mem_insertionSort, List.mem_filter, decide_eq_true_iff] at hi'
        have hle := ((hmem i).mp hi).2
        omega
    · rw [List.mem_append, hmem, List.mem_insertionSort, List.mem_filter, decide_eq_true_iff]
      constructor
      · intro hi
        by_cases hle : i ≤ n
        · exact Or.inl ⟨hpositive i hi, hle⟩
        · exact Or.inr ⟨hi, not_le.mp hle⟩
      · rintro (⟨hi, hle⟩ | ⟨hi, -⟩)
        · have hj := hall (i - 1) (by omega)
          rwa [Nat.add_sub_cancel' hi] at hj
        · exact hi
  refine ((List.perm_insertionSort _ _).trans hperm).eq_of_pairwise'
    (List.pairwise_insertionSort _ _) (List.pairwise_append.mpr ⟨?_, ?_, ?_⟩)
  · exact List.pairwise_le_range'
  · exact List.pairwise_insertionSort _ _
  · intro i hi j hj
    rw [List.mem_insertionSort, List.mem_filter, decide_eq_true_iff] at hj
    exact ((hmem i).mp hi).2.trans hj.2.le

/-- Sections in a row are joined up to the first end mark. -/
theorem joinSections_range' {clears : List (ℕ × String)} {index : ℕ} {texts : List String}
    (h : ∀ j, (hj : j < texts.length) → clears.lookup (index + j) = some texts[j])
    (hend : endMark ∈ texts) (rest : List ℕ) :
    joinSections clears (List.range' index texts.length ++ rest) = untilEnd texts := by
  induction texts generalizing index with
  | nil => exact absurd hend List.not_mem_nil
  | cons text texts ih =>
    have hfirst := h 0 (Nat.succ_pos _)
    rw [Nat.add_zero, List.getElem_cons_zero] at hfirst
    rw [List.length_cons, List.range'_succ, List.cons_append, joinSections, hfirst,
      Option.getD_some, untilEnd]
    split_ifs with htext
    · rw [ih]
      · intro j hj
        have hnext := h (j + 1) (Nat.succ_lt_succ hj)
        rw [List.getElem_cons_succ] at hnext
        rw [← hnext, Nat.add_right_comm, Nat.add_assoc]
      · exact (List.mem_cons.mp hend).resolve_left (Ne.symm htext)
    · rfl

/-- The sections of a user, from the first one on. -/
def Stored (manager : CredentialManager) (passwords : Passwords) (user : String)
    (texts : List String) : Prop :=
  ∀ j, (hj : j < texts.length) →
    passwords.lookup (manager.realm, partialUser user (1 + j)) = some texts[j]

theorem Tidy.clearOf_eq (h : manager.Tidy passwords) (huser : PlainName user) {texts : List String}
    (hstored : manager.Stored passwords user texts) (hend : endMark ∈ texts) :
    manager.clearOf passwords user = some (untilEnd texts) := by
  have hnodup := h.nodup_sectionsNamed huser
  have hmem : ∀ j, (hj : j < texts.length) → (1 + j, texts[j]) ∈
      sectionsNamed (manager.inRealm passwords) (manager.stanzaName user) := by
    intro j hj
    rw [h.mem_sectionsNamed_iff huser]
    exact ⟨Nat.lt_add_right j Nat.one_pos, hstored j hj⟩
  have hpositive : ∀ i ∈ (sectionsNamed (manager.inRealm passwords)
      (manager.stanzaName user)).map Prod.fst, 0 < i := by
    intro i hi
    obtain ⟨⟨_, text⟩, hsection, rfl⟩ := List.mem_map.mp hi
    exact ((h.mem_sectionsNamed_iff huser).mp hsection).1
  obtain ⟨rest, hsorted⟩ := insertionSort_eq_append hnodup hpositive fun j hj ↦
    List.mem_map_of_mem (hmem j hj)
  have hne : sectionsNamed (manager.inRealm passwords) (manager.stanzaName user) ≠ [] :=
    List.ne_nil_of_mem (hmem 0 (List.length_pos_of_mem hend))
  rw [clearOf, if_pos hne, hsorted]
  refine congrArg some (joinSections_range' (fun j hj ↦ ?_) hend rest)
  exact (mem_iff_lookup hnodup).mp (hmem j hj)

/-- The names under which something is stored for a user. -/
def OfUser (user name : String) : Prop := name = user ∨ ∃ index, name = partialUser user index

theorem OfUser.eq (h : OfUser user name) (h' : OfUser other name) (huser : PlainName user)
    (hother : PlainName other) : user = other := by
  rcases h with rfl | ⟨i, rfl⟩
  · rcases h' with rfl | ⟨j, heq⟩
    · rfl
    · exact absurd heq (ne_partialUser huser other j)
  · rcases h' with heq | ⟨j, heq⟩
    · exact absurd heq.symm (ne_partialUser hother user i)
    · exact (partialUser_inj huser hother heq).1

theorem endMark_mem_sections (password : String) : endMark ∈ sections password :=
  List.mem_append_right _ (List.mem_singleton_self _)

/-- **`set_password`**, from a tidy store. -/
theorem Tidy.ends_setPassword (h : manager.Tidy passwords) (huser : PlainName user)
    (password : String) : Ends (manager.setPassword user password) passwords fun r after ↦
      .ok () = r ∧ manager.Tidy after ∧
        manager.clearOf after user = some (untilEnd (sections password)) ∧
        (∀ other, PlainName other → other ≠ user →
          manager.clearOf after other = manager.clearOf passwords other) ∧
        ∀ key, key.1 ≠ manager.realm → after.lookup key = passwords.lookup key := by
  rw [setPassword, ends_storeSections]
  have htidy := h.foldl huser Nat.one_pos (sections password)
  refine ⟨rfl, htidy, htidy.clearOf_eq huser (fun j hj ↦ lookup_foldl huser hj)
    (endMark_mem_sections password), ?_, ?_⟩
  · intro other hother hne
    refine htidy.clearOf_congr h hother fun name hname ↦ lookup_foldl_of_ne fun i _ _ heq ↦ ?_
    obtain rfl := congrArg Prod.snd heq
    exact hne (OfUser.eq hname (Or.inr ⟨i, rfl⟩) hother huser)
  · refine fun key hkey ↦ lookup_foldl_of_ne fun i _ _ heq ↦ hkey ?_
    rw [heq]

/-! ## Deleting -/

theorem isOfUser_iff (h : manager.Tidy passwords) (huser : PlainName user)
    (hname : (manager.realm, name) ∈ passwords.map Prod.fst) :
    isOfUser user name = true ↔ OfUser user name := by
  have hiff : isOfUser user name = true ↔ user = name ∨
      ∃ rest, afterPrefix (user ++ sep).toList name.toList = some rest ∧
        leadingDigits rest ≠ [] := by
    rw [isOfUser, decide_eq_true_iff, Option.any_eq_true]
    simp only [decide_eq_true_eq]
  rw [hiff, OfUser, eq_comm (a := name)]
  refine or_congr_right ?_
  constructor
  · rintro ⟨rest, hrest, -⟩
    rw [afterPrefix_eq_some_iff, String.toList_append] at hrest
    rcases h.shape hname with hplain | ⟨other, index, hother, -, rfl⟩
    · refine absurd ?_ (backtick_notMem hplain)
      rw [hrest]
      exact List.mem_append_left _ (List.mem_append_right _ (by decide))
    · rw [toList_partialUser] at hrest
      exact ⟨index, by rw [user_eq_of_append_eq hother huser hrest]⟩
  · rintro ⟨index, rfl⟩
    refine ⟨(toString index).toList, ?_, ?_⟩
    · rw [afterPrefix_eq_some_iff, toList_partialUser, String.toList_append]
    · have hnil : leadingDigits [] = [] := rfl
      have hdigits := leadingDigits_toString_ne_nil index hnil
      rwa [List.append_nil] at hdigits

theorem Tidy.mem_deleted_iff (h : manager.Tidy passwords) (huser : PlainName user)
    {p : StoragePassword} : p ∈ (manager.order (manager.inRealm passwords)).filter (fun p ↦
      isOfUser user p.username ∧ p.realm = manager.realm) ↔
        p ∈ passwords ∧ p.realm = manager.realm ∧ OfUser user p.username := by
  rw [List.mem_filter, (manager.perm _).mem_iff, mem_inRealm_iff, decide_eq_true_iff, and_assoc]
  refine and_congr_right fun hp ↦ and_congr_right fun hrealm ↦ ?_
  rw [and_iff_left hrealm]
  refine isOfUser_iff h huser ?_
  rw [← hrealm]
  exact List.mem_map_of_mem hp

theorem Tidy.clearOf_eq_none_iff (h : manager.Tidy passwords) (huser : PlainName user) :
    manager.clearOf passwords user = none ↔
      ∀ name, OfUser user name → (manager.realm, name) ∉ passwords.map Prod.fst := by
  rw [clearOf]
  constructor
  · intro hnone
    split_ifs at hnone with hsections
    rintro name (rfl | ⟨index, rfl⟩)
    · exact lookup_eq_none_iff_notMem.mp hnone
    · intro hmem
      obtain ⟨⟨key, text⟩, hp, rfl⟩ := List.mem_map.mp hmem
      rcases h.shape hmem with hplain | ⟨other, i, hother, hi, heq⟩
      · exact backtick_notMem hplain (backtick_mem_partialUser user index)
      · obtain ⟨rfl, rfl⟩ := partialUser_inj huser hother heq
        have hsection := (h.mem_sectionsNamed_iff huser).mpr ⟨hi, (mem_iff_lookup h.nodup).mp hp⟩
        rw [not_not.mp hsections] at hsection
        exact absurd hsection List.not_mem_nil
  · intro hnothing
    have hsections : sectionsNamed (manager.inRealm passwords) (manager.stanzaName user) = [] := by
      rw [List.eq_nil_iff_forall_not_mem]
      rintro ⟨index, text⟩ hmem
      have hlookup := ((h.mem_sectionsNamed_iff huser).mp hmem).2
      rw [lookup_eq_none_iff_notMem.mpr (hnothing _ (Or.inr ⟨index, rfl⟩))] at hlookup
      exact absurd hlookup (Option.some_ne_none _).symm
    rw [if_neg (not_not.mpr hsections)]
    exact lookup_eq_none_iff_notMem.mpr (hnothing user (Or.inl rfl))

/-- **`delete_password`**, from a tidy store. -/
theorem Tidy.ends_deletePassword (h : manager.Tidy passwords) (huser : PlainName user) :
    Ends (manager.deletePassword user) passwords fun r after ↦
      r = (if (manager.clearOf passwords user).isSome then .ok () else .error credentialNotExist) ∧
        manager.Tidy after ∧ manager.clearOf after user = none ∧
        ∀ other, PlainName other → other ≠ user →
          manager.clearOf after other = manager.clearOf passwords other := by
  set deleted := (manager.order (manager.inRealm passwords)).filter fun p ↦
    isOfUser user p.username ∧ p.realm = manager.realm with hdeleted
  set after := passwords.filter fun p ↦ p.1 ∉ deleted.map Prod.fst with hafter
  have hmem {name : String} (hname : (manager.realm, name) ∈ passwords.map Prod.fst) :
      (manager.realm, name) ∈ deleted.map Prod.fst ↔ OfUser user name := by
    constructor
    · intro hdel
      obtain ⟨p, hp, hfst⟩ := List.mem_map.mp hdel
      have hof := ((h.mem_deleted_iff huser).mp hp).2.2
      rwa [StoragePassword.username, hfst] at hof
    · intro hof
      obtain ⟨⟨_, text⟩, hp, rfl⟩ := List.mem_map.mp hname
      exact List.mem_map_of_mem ((h.mem_deleted_iff huser).mpr ⟨hp, rfl, hof⟩)
  have hsubset {p : StoragePassword} (hp : p ∈ deleted) :
      p ∈ passwords ∧ p.1 = (manager.realm, p.username) := by
    obtain ⟨hp, hrealm, -⟩ := (h.mem_deleted_iff huser).mp hp
    exact ⟨hp, Prod.ext hrealm rfl⟩
  have hlookup (name : String) : after.lookup (manager.realm, name) =
      if (manager.realm, name) ∉ deleted.map Prod.fst then
        passwords.lookup (manager.realm, name) else none := by
    rw [hafter, lookup_filter fun key ↦ decide (key ∉ deleted.map Prod.fst)]
    simp only [decide_eq_true_eq]
  have htidy : manager.Tidy after := by
    refine ⟨h.nodup.sublist (List.filter_sublist.map _), fun hname ↦ h.shape ?_⟩
    exact (List.filter_sublist.map _).subset hname
  have hnone : manager.clearOf after user = none := by
    refine (htidy.clearOf_eq_none_iff huser).mpr fun name hname hin ↦ ?_
    have hin' := (List.filter_sublist.map _).subset hin
    have hnot := lookup_eq_none_iff_notMem.not_left.mpr hin
    rw [hlookup, if_neg (not_not.mpr ((hmem hin').mpr hname))] at hnot
    exact hnot rfl
  have hothers : ∀ other, PlainName other → other ≠ user →
      manager.clearOf after other = manager.clearOf passwords other := by
    intro other hother hne
    refine htidy.clearOf_congr h hother fun name hname ↦ ?_
    rw [hlookup]
    split_ifs with hdel
    · obtain ⟨p, hp, hfst⟩ := List.mem_map.mp hdel
      have hin := List.mem_map_of_mem (f := Prod.fst) (hsubset hp).1
      rw [hfst] at hin
      exact absurd (OfUser.eq hname ((hmem hin).mp hdel) hother huser) hne
    · rfl
  rw [deletePassword, getRawPasswords, bind_assoc, ends_get_bind]
  change Ends (do
    modify fun passwords ↦ passwords.filter fun p ↦ p.1 ∉ deleted.map Prod.fst
    if deleted = [] then throw credentialNotExist else pure ()) passwords _
  rw [ends_bind, ends_modify]
  have hdeletes : deleted = [] ↔ manager.clearOf passwords user = none := by
    rw [h.clearOf_eq_none_iff huser]
    constructor
    · intro hnil name hname hin
      have hdel := (hmem hin).mpr hname
      rw [hnil] at hdel
      exact absurd hdel List.not_mem_nil
    · refine fun hnothing ↦ List.eq_nil_iff_forall_not_mem.mpr fun p hp ↦ ?_
      obtain ⟨hin, hfst⟩ := hsubset hp
      have hdel := List.mem_map_of_mem (f := Prod.fst) hp
      have hin := List.mem_map_of_mem (f := Prod.fst) hin
      rw [hfst] at hdel hin
      exact hnothing _ ((hmem hin).mp hdel) hin
  dsimp only
  by_cases hnil : deleted = []
  · rw [if_pos hnil, ends_throw, hdeletes.mp hnil]
    exact ⟨rfl, htidy, hnone, hothers⟩
  · rw [if_neg hnil, ends_pure, Option.isSome_iff_ne_none.mpr (mt hdeletes.mpr hnil)]
    exact ⟨rfl, htidy, hnone, hothers⟩

end Storing

end CredentialManager

end MsSecurity
