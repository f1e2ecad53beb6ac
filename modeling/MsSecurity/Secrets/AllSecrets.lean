import MsSecurity.Secrets.OneSecret

/-!
# The secrets of all stanzas

`decrypt_all` gets the passwords of the realm once and goes through the stanzas twice: first those
with a secret, then the others. Together the loops take up the secret of every stanza that has one
in the file, and reveal the others.
-/

namespace MsSecurity

open InputStanza (Fields)
open CredentialManager (ClearStanza clearPasswords)

section Lists

variable {κ α β ε : Type}

theorem mapM_eq_ok_map {g : α → Except ε β} {h : α → β} {l : List α}
    (hl : ∀ x ∈ l, g x = .ok (h x)) : l.mapM g = .ok (l.map h) := by
  induction l with
  | nil => rfl
  | cons x l ih =>
    rw [List.forall_mem_cons] at hl
    rw [List.mapM_cons, hl.1, ih hl.2]
    rfl

theorem mem_of_lookup [BEq κ] [LawfulBEq κ] {d : List (κ × α)} {key : κ} {value : α}
    (h : d.lookup key = some value) : (key, value) ∈ d := by
  obtain ⟨l, r, rfl, -⟩ := List.lookup_eq_some_iff.mp h
  exact List.mem_append_right _ List.mem_cons_self

theorem lookup_dictOf [DecidableEq κ] {items : List (κ × α)} {g : κ → Option α}
    (hitems : ∀ p ∈ items, g p.1 = some p.2) {key : κ}
    (hkey : key ∈ items.map Prod.fst ∨ g key = none) : (dictOf items).lookup key = g key := by
  rw [dictOf, lookup_foldl_setKey, List.lookup_nil, Option.or_none]
  cases hlookup : items.reverse.lookup key with
  | some value => exact (hitems _ (List.mem_reverse.mp (mem_of_lookup hlookup))).symm
  | none =>
    rw [lookup_eq_none_iff_notMem, List.map_reverse, List.mem_reverse] at hlookup
    exact (hkey.resolve_left hlookup).symm

end Lists

namespace RestCredentials

variable {credentials : RestCredentials} {f : String} {passwords : Passwords}
  {secrets : String → Option String} {name : String} {content : Fields} {entries : List Entry}

/-! ## What is taken up -/

/-- The secret of a stanza: what stands in the file, or what is stored. -/
def current (f : String) (secrets : String → Option String) (entry : Entry) : Option String :=
  (incoming (Dict.get entry.2 f)).or (secrets entry.1)

/-- The secrets, with those that stand in stanzas. -/
def absorb (f : String) (entries : List Entry) (secrets : String → Option String) :
    String → Option String :=
  fun name ↦ ((entries.lookup name).bind fun content ↦ incoming (Dict.get content f)).or
    (secrets name)

theorem absorb_cons (hname : name ∉ entries.map Prod.fst) :
    absorb f ((name, content) :: entries) secrets =
      absorb f entries (Function.update secrets name (current f secrets (name, content))) := by
  funext other
  rw [absorb, absorb, List.lookup_cons]
  by_cases hother : other = name
  · subst hother
    rw [beq_self_eq_true, lookup_eq_none_iff_notMem.mpr hname, Function.update_self]
    rfl
  · rw [beq_false_of_ne hother, Function.update_of_ne hother]

theorem absorb_filter (p : String → Bool) :
    absorb f (entries.filter fun entry ↦ !p entry.1)
        (absorb f (entries.filter fun entry ↦ p entry.1) secrets) = absorb f entries secrets := by
  funext name
  rw [absorb, absorb, absorb, lookup_filter fun name ↦ !p name, lookup_filter p]
  cases p name with
  | true => rfl
  | false => rfl

/-- The stanza with its secret. -/
def Revealed (f : String) (secrets : String → Option String) (entry entry' : Entry) : Prop :=
  entry'.1 = entry.1 ∧ ∀ key, Dict.get entry'.2 key =
    if key = f then current f secrets entry else Dict.get entry.2 key

/-- The field is there, and stars in it stand for a secret. -/
def Kept (f : String) (secrets : String → Option String) (entry : Entry) : Prop :=
  PlainName entry.1 ∧ ∃ v, Dict.get entry.2 f = some v ∧ v ≠ "" ∧
    (v = mask → secrets entry.1 ≠ none)

theorem Kept.exists_current {entry : Entry} (h : Kept f secrets entry) :
    ∃ c, current f secrets entry = some c := by
  obtain ⟨-, v, hv, hempty, hmask⟩ := h
  rw [current, hv]
  by_cases hstars : v = mask
  · obtain ⟨w, hw⟩ := Option.ne_none_iff_exists'.mp (hmask hstars)
    exact ⟨w, by rw [hstars, incoming_mask, Option.none_or, hw]⟩
  · exact ⟨v, by rw [incoming_of_ne hempty hstars, Option.some_or]⟩

theorem Kept.revealed_self {entry : Entry} (h : Kept f secrets entry)
    (hmask : Dict.get entry.2 f ≠ some mask) : Revealed f secrets entry entry := by
  obtain ⟨-, v, hv, hempty, -⟩ := h
  have hne : v ≠ mask := fun heq ↦ hmask (hv.trans (congrArg some heq))
  refine ⟨rfl, fun key ↦ ?_⟩
  rw [current, hv, incoming_of_ne hempty hne, Option.some_or]
  split_ifs with hkey
  · rw [hkey, hv]
  · rfl

section Congruence

variable {secrets' : String → Option String} {entry entry' : Entry}
  (hsecret : secrets' entry.1 = secrets entry.1)

include hsecret

theorem Kept.congr (h : Kept f secrets entry) : Kept f secrets' entry := by
  rwa [Kept, hsecret]

theorem Revealed.congr (h : Revealed f secrets' entry entry') :
    Revealed f secrets entry entry' := by
  rwa [Revealed, current, hsecret] at h

end Congruence

theorem forall₂_revealed_congr {secrets' : String → Option String} {entries' : List Entry}
    (hsecret : ∀ entry ∈ entries, secrets' entry.1 = secrets entry.1)
    (h : List.Forall₂ (Revealed f secrets') entries entries') :
    List.Forall₂ (Revealed f secrets) entries entries' := by
  induction h with
  | nil => exact List.Forall₂.nil
  | cons hrevealed _ ih =>
    rw [List.forall_mem_cons] at hsecret
    exact List.Forall₂.cons (hrevealed.congr hsecret.1) (ih hsecret.2)

/-! ## Stanzas with a password -/

variable (h : credentials.Holds f passwords secrets)

include h

theorem Holds.ends_mergeExisting (hkept : Kept f secrets (name, content)) {w : String}
    (hw : secrets name = some w) :
    Ends (credentials.mergeExisting name content [(f, w)]) passwords fun r after ↦
      (∃ content', .ok (content', (incoming (Dict.get content f)).isSome) = r ∧
        Revealed f secrets (name, content) (name, content') ∧
        ((incoming (Dict.get content f)).isSome → content' = content)) ∧
      credentials.Holds f after
        (Function.update secrets name (current f secrets (name, content))) := by
  obtain ⟨hname, v, hv, hempty, -⟩ := hkept
  dsimp only at hname hv
  rw [mergeExisting]
  by_cases hmask : v = mask
  · have hcurrent : current f secrets (name, content) = some w := by
      rw [current, hv, hmask, incoming_mask, Option.none_or, hw]
    have hmerge : mergeContent content [(f, w)] = (setKey content f w, [(f, w)], false, false) := by
      rw [mergeContent, List.foldl_cons, List.foldl_nil]
      dsimp only
      rw [hv]
      exact if_pos hmask
    rw [hmerge, hv, hmask, incoming_mask, hcurrent]
    refine ⟨⟨_, rfl, ⟨rfl, fun key ↦ ?_⟩, fun hsome ↦ absurd hsome Bool.false_ne_true⟩,
      h.update_self hw⟩
    rw [get_setKey, hcurrent]
  · have hcurrent : current f secrets (name, content) = some v := by
      rw [current, hv, incoming_of_ne hempty hmask, Option.some_or]
    have hset : setKey [(f, w)] f v = [(f, v)] := by
      have hmem : f ∈ [(f, w)].map Prod.fst := List.mem_singleton_self f
      rw [setKey_of_mem hmem, List.map_singleton, if_pos rfl]
    have hmerge : mergeContent content [(f, w)] = (content, [(f, v)], true, true) := by
      rw [mergeContent, List.foldl_cons, List.foldl_nil]
      dsimp only
      rw [hv]
      dsimp only
      rw [if_neg hmask, if_neg hempty, hset]
    have hclear : [(f, v)].filter (fun p ↦ p.2 ≠ "") = [(f, v)] :=
      List.filter_cons_of_pos (decide_eq_true hempty)
    rw [hmerge, hv, incoming_of_ne hempty hmask, hcurrent]
    dsimp only
    rw [if_pos rfl, hclear, if_pos (List.cons_ne_nil _ _), ends_bind]
    refine (h.ends_set hname hempty).mono ?_
    rintro r after ⟨rfl, hafter⟩
    refine ⟨⟨content, rfl, ⟨rfl, fun key ↦ ?_⟩, fun _ ↦ rfl⟩, hafter⟩
    rw [hcurrent]
    split_ifs with hkey
    · rw [hkey, hv]
    · rfl

theorem Holds.ends_mergeStanzas {passwordDict : List (String × Dict String)}
    (hnodup : (entries.map Prod.fst).Nodup) (hkept : ∀ entry ∈ entries, Kept f secrets entry)
    (hdict : ∀ entry ∈ entries, passwordDict.lookup entry.1 =
      (secrets entry.1).map fun w ↦ [(f, w)]) :
    Ends (credentials.mergeStanzas passwordDict entries) passwords fun r after ↦
      (∃ revealed, .ok (revealed, entries.filter fun entry ↦
          (passwordDict.lookup entry.1).isSome && (incoming (Dict.get entry.2 f)).isSome) = r ∧
        List.Forall₂ (Revealed f secrets) entries revealed) ∧
      credentials.Holds f after (absorb f
        (entries.filter fun entry ↦ (passwordDict.lookup entry.1).isSome) secrets) := by
  induction entries generalizing passwords secrets with
  | nil => exact ⟨⟨[], rfl, List.Forall₂.nil⟩, h⟩
  | cons entry entries ih =>
    obtain ⟨name, content⟩ := entry
    rw [List.map_cons, List.nodup_cons] at hnodup
    rw [List.forall_mem_cons] at hkept hdict
    have hne : ∀ entry ∈ entries, entry.1 ≠ name := by
      intro entry hmem heq
      exact hnodup.1 (List.mem_map.mpr ⟨entry, hmem, heq⟩)
    rw [mergeStanzas]
    cases hw : secrets name with
    | none =>
      have hlookup : passwordDict.lookup name = none := by
        rw [hdict.1, hw, Option.map_none]
      have hmask : Dict.get content f ≠ some mask := by
        intro hmask
        obtain ⟨-, v, hv, -, hstars⟩ := hkept.1
        exact hstars (Option.some.inj (hv.symm.trans hmask)) hw
      rw [hlookup, List.filter_cons_of_neg (by simp [hlookup]),
        List.filter_cons_of_neg (by simp [hlookup])]
      dsimp only
      rw [ends_bind]
      refine (ih h hnodup.2 hkept.2 hdict.2).mono ?_
      rintro r after ⟨⟨revealed, rfl, hrevealed⟩, hafter⟩
      exact ⟨⟨_, rfl, List.Forall₂.cons (hkept.1.revealed_self hmask) hrevealed⟩, hafter⟩
    | some w =>
      have hlookup : passwordDict.lookup name = some [(f, w)] := by
        rw [hdict.1, hw, Option.map_some]
      have hsecret : ∀ entry ∈ entries, ∀ secret,
          Function.update secrets name secret entry.1 = secrets entry.1 :=
        fun entry hmem secret ↦ Function.update_of_ne (hne entry hmem) _ _
      have hstored : (((name, content) :: entries).filter fun entry ↦
          (passwordDict.lookup entry.1).isSome) = (name, content) ::
            entries.filter fun entry ↦ (passwordDict.lookup entry.1).isSome :=
        List.filter_cons_of_pos (by simp [hlookup])
      have hnotMem : name ∉ (entries.filter fun entry ↦
          (passwordDict.lookup entry.1).isSome).map Prod.fst :=
        fun hmem ↦ hnodup.1 ((List.filter_sublist.map _).subset hmem)
      rw [hlookup, hstored, absorb_cons hnotMem]
      dsimp only
      rw [ends_bind]
      refine (h.ends_mergeExisting hkept.1 hw).mono ?_
      rintro _ after ⟨⟨content', rfl, hrevealed, hsame⟩, hafter⟩
      dsimp only
      rw [ends_bind]
      refine (ih hafter hnodup.2 (fun entry hmem ↦ (hkept.2 entry hmem).congr
        (hsecret entry hmem _)) fun entry hmem ↦ ?_).mono ?_
      · rw [hdict.2 entry hmem, hsecret entry hmem]
      · rintro _ last ⟨⟨revealed, rfl, hrest⟩, hlast⟩
        refine ⟨⟨(name, content') :: revealed, ?_, List.Forall₂.cons hrevealed
          (forall₂_revealed_congr (fun entry hmem ↦ hsecret entry hmem _) hrest)⟩, hlast⟩
        cases hin : incoming (Dict.get content f) with
        | none =>
          rw [List.filter_cons_of_neg (by simp [hin])]
          rfl
        | some v =>
          rw [List.filter_cons_of_pos (by simp [hlookup, hin]), hsame (by rw [hin]; rfl)]
          rfl

/-! ## Stanzas without a password -/

/-- The loop over the stanzas without a password. -/
theorem Holds.ends_encryptOthers (hone : credentials.encryptedFieldNames = [f])
    (hnodup : (entries.map Prod.fst).Nodup) (hkept : ∀ entry ∈ entries, Kept f secrets entry)
    (hnone : ∀ entry ∈ entries, secrets entry.1 = none) :
    Ends (credentials.encryptOthers entries) passwords fun r after ↦
      .ok () = r ∧ credentials.Holds f after (absorb f entries secrets) := by
  induction entries generalizing passwords secrets with
  | nil => exact ⟨rfl, h⟩
  | cons entry entries ih =>
    obtain ⟨name, content⟩ := entry
    rw [List.map_cons, List.nodup_cons] at hnodup
    rw [List.forall_mem_cons] at hkept hnone
    obtain ⟨⟨hname, v, hv, hempty, hmask⟩, hrest⟩ := hkept
    have hne : v ≠ mask := fun hstars ↦ hmask hstars hnone.1
    have hsecret : ∀ entry ∈ entries, ∀ secret,
        Function.update secrets name secret entry.1 = secrets entry.1 := by
      intro entry hmem secret
      refine Function.update_of_ne (fun heq ↦ ?_) _ _
      exact hnodup.1 (List.mem_map.mpr ⟨entry, hmem, heq⟩)
    have hclear : credentials.clearFields content = [(f, v)] := by
      rw [clearFields, hone, List.foldl_cons, List.foldl_nil, hv, nonemptyStr?_some hempty]
      rfl
    have hcurrent : current f secrets (name, content) = some v := by
      rw [current, hv, incoming_of_ne hempty hne, Option.some_or]
    rw [encryptOthers, hclear, if_pos (List.cons_ne_nil _ _), ends_bind, absorb_cons hnodup.1,
      hcurrent]
    refine (h.ends_set hname hempty).mono ?_
    rintro _ after ⟨rfl, hafter⟩
    exact ih hafter hnodup.2 (fun entry hmem ↦ (hrest entry hmem).congr (hsecret entry hmem _))
      fun entry hmem ↦ (hsecret entry hmem _).trans (hnone.2 entry hmem)

/-! ## All stanzas -/

theorem Holds.mem_clearPasswords {password : ClearStanza} (hmem : password ∈
    clearPasswords (credentials.manager.order (credentials.manager.inRealm passwords))) :
    password.realm = credentials.manager.realm ∧ ∃ w, secrets password.username = some w ∧
      JsonText.loads password.clearPassword = some [(f, w)] := by
  obtain ⟨hplain, hrealm, hclear⟩ := h.tidy.mem_clearPasswords hmem
  rw [h.clear hplain, Option.map_eq_some_iff] at hclear
  obtain ⟨w, hw, htext⟩ := hclear
  exact ⟨hrealm, w, hw, htext ▸ loads_single f w⟩

theorem Holds.exists_passwordDict : ∃ items,
    ((clearPasswords (credentials.manager.order (credentials.manager.inRealm passwords))).filter
      fun p ↦ p.realm = credentials.manager.realm).mapM loadPassword = .ok items ∧
    ∀ {name}, PlainName name →
      (dictOf items).lookup name = (secrets name).map fun w ↦ [(f, w)] := by
  set stanzas := clearPasswords (credentials.manager.order (credentials.manager.inRealm passwords))
    with hstanzas
  have hall : stanzas.filter (fun p ↦ p.realm = credentials.manager.realm) = stanzas :=
    List.filter_eq_self.mpr fun p hp ↦ decide_eq_true (h.mem_clearPasswords hp).1
  refine ⟨stanzas.map fun p ↦ (p.username, (JsonText.loads p.clearPassword).getD []), ?_,
    fun {name} hname ↦ ?_⟩
  · rw [hall]
    refine mapM_eq_ok_map fun p hp ↦ ?_
    obtain ⟨w, -, hloads⟩ := (h.mem_clearPasswords hp).2
    rw [loadPassword, hloads]
    rfl
  · refine lookup_dictOf (g := fun name ↦ (secrets name).map fun w ↦ [(f, w)]) ?_ ?_
    · rw [List.forall_mem_map]
      intro p hp
      obtain ⟨w, hw, hloads⟩ := (h.mem_clearPasswords hp).2
      rw [hw, hloads]
      rfl
    · rw [List.map_map, List.mem_map, Option.map_eq_none_iff]
      refine or_iff_not_imp_right.mpr fun hsome ↦ ?_
      obtain ⟨w, hw⟩ := Option.ne_none_iff_exists'.mp hsome
      have hclear := h.clear hname
      rw [hw, Option.map_some] at hclear
      exact h.tidy.exists_mem_clearPasswords hname hclear

/-- **`decrypt_all`.** All secrets that stand in the file are taken up, and the stanzas are
revealed. Those to be masked are all that have a secret in the file. -/
theorem Holds.ends_decryptAll (hone : credentials.encryptedFieldNames = [f])
    (hnodup : (entries.map Prod.fst).Nodup) (hkept : ∀ entry ∈ entries, Kept f secrets entry) :
    Ends (credentials.decryptAll entries) passwords fun r after ↦
      (∃ revealed changes, .ok (revealed, changes) = r ∧
        List.Forall₂ (Revealed f secrets) entries revealed ∧
        changes.Perm (entries.filter fun entry ↦ (incoming (Dict.get entry.2 f)).isSome)) ∧
      credentials.Holds f after (absorb f entries secrets) := by
  obtain ⟨items, hitems, hdict⟩ := h.exists_passwordDict
  have hlookup : ∀ entry ∈ entries,
      (dictOf items).lookup entry.1 = (secrets entry.1).map fun w ↦ [(f, w)] :=
    fun entry hmem ↦ hdict (hkept entry hmem).1
  set stored : String → Bool := fun name ↦ ((dictOf items).lookup name).isSome
  have hstored : ∀ entry ∈ entries, stored entry.1 = (secrets entry.1).isSome := by
    intro entry hmem
    change ((dictOf items).lookup entry.1).isSome = _
    rw [hlookup entry hmem, Option.isSome_map]
  set others := entries.filter fun entry ↦ !stored entry.1
  have hnone : ∀ entry ∈ others, entry ∈ entries ∧ secrets entry.1 = none := by
    intro entry hmem
    obtain ⟨hmem, hnot⟩ := List.mem_filter.mp hmem
    rw [Bool.not_eq_true', hstored entry hmem, Option.isSome_eq_false_iff,
      Option.isNone_iff_eq_none] at hnot
    exact ⟨hmem, hnot⟩
  have hsame : ∀ entry ∈ others,
      absorb f (entries.filter fun entry ↦ stored entry.1) secrets entry.1 = secrets entry.1 := by
    intro entry hmem
    have hnot := (List.mem_filter.mp hmem).2
    rw [Bool.not_eq_true'] at hnot
    rw [absorb, lookup_filter stored, hnot]
    rfl
  have hperm : ((entries.filter fun entry ↦
      stored entry.1 && (incoming (Dict.get entry.2 f)).isSome) ++ others).Perm
        (entries.filter fun entry ↦ (incoming (Dict.get entry.2 f)).isSome) := by
    have hall : others = (entries.filter fun entry ↦
        (incoming (Dict.get entry.2 f)).isSome).filter fun entry ↦ !stored entry.1 := by
      rw [List.filter_filter]
      refine List.filter_congr fun entry hmem ↦ ?_
      cases hsecret : stored entry.1 with
      | true => rfl
      | false =>
        obtain ⟨-, v, hv, hempty, hmask⟩ := hkept entry hmem
        have hnone : secrets entry.1 = none := by
          rw [hstored entry hmem, Option.isSome_eq_false_iff] at hsecret
          exact Option.isNone_iff_eq_none.mp hsecret
        rw [hv, incoming_of_ne hempty fun hstars ↦ hmask hstars hnone]
        rfl
    rw [hall, ← List.filter_filter]
    exact List.filter_append_perm _ _
  have hdicts : (entries.filter fun entry ↦ ((dictOf items).lookup entry.1).isNone) = others :=
    List.filter_congr fun entry _ ↦ by simp [stored]
  rw [decryptAll, CredentialManager.getClearPasswords, CredentialManager.getRawPasswords,
    bind_assoc, bind_assoc, ends_get_bind, pure_bind, pure_bind, ← CredentialManager.inRealm]
  dsimp only
  rw [hitems, liftExcept_ok_bind, hdicts, ends_bind]
  refine (h.ends_mergeStanzas hnodup hkept hlookup).mono ?_
  rintro _ middle ⟨⟨revealed, rfl, hrevealed⟩, hmiddle⟩
  dsimp only
  rw [ends_bind]
  refine (hmiddle.ends_encryptOthers hone (hnodup.sublist (List.filter_sublist.map _))
    (fun entry hmem ↦ (hkept entry (hnone entry hmem).1).congr (hsame entry hmem))
    fun entry hmem ↦ (hsame entry hmem).trans (hnone entry hmem).2).mono ?_
  rintro _ after ⟨rfl, hafter⟩
  rw [absorb_filter] at hafter
  exact ⟨⟨revealed, _, rfl, hrevealed, hperm⟩, hafter⟩

end RestCredentials

end MsSecurity
