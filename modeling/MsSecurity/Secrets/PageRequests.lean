import MsSecurity.Secrets.PageView

/-!
# Reading from the page

Reading a stanza, listing all of them and checking whether one exists leave what the state stands
for as it is, whatever they rewrite. What they write has stars in the place of the secret.
-/

namespace MsSecurity

open InputStanza (Fields merge get_merge checkNameForCreate)
open RestCredentials

theorem ends_withPasswords {α : Type} {x : EStateM PyError Passwords α} {s : ConfServer}
    {Q : Except PyError α → ConfServer → Prop} : Ends (withPasswords x) s Q ↔
      Ends x s.passwords fun r passwords ↦ Q r { s with passwords } := by
  refine ends_zoom.trans (iff_of_eq (congrArg (Ends x s.passwords) ?_))
  funext r passwords
  cases r <;> rfl

/-- The page has one field that is encrypted, and it is required. -/
structure OneSecret (handler : RestHandler) (f : String) : Prop where
  names : handler.credentials.encryptedFieldNames = [f]
  required : ∃ field ∈ handler.fields, field.name = f ∧ field.required = true
  ne_name : f ≠ "name"

/-- Nothing goes wrong on the way. -/
structure RestAnswers.Reliable (answers : RestAnswers) : Prop where
  reload : answers.reload = none
  read : answers.read = none
  mask : ∀ name, (answers.mask name).fault = none
  save : answers.save.fault = none
  remove : answers.remove.fault = none
  body : answers.body = none

namespace RestHandler

variable {handler : RestHandler} {f : String} {answers : RestAnswers} {s : ConfServer}
  {known : Known} {secrets : String → Option String} {name : String} {content data : Fields}
  {decrypt : Bool}

/-- The state stands for the fields. -/
def Represents (handler : RestHandler) (f : String) (s : ConfServer) (known : Known) : Prop :=
  ∃ secrets, handler.Consistent f s secrets ∧ view f s secrets = known

/-- Stars stand in the stanza. -/
def Hidden (f : String) (s : ConfServer) (name : String) : Prop :=
  ∃ content, Dict.get s.conf name = some content ∧ Dict.get content f = some mask

/-- The stanzas of the second state that are not those of the first one have stars. -/
def Written (f : String) (s s' : ConfServer) : Prop :=
  ∀ ⦃name content⦄, Dict.get s'.conf name = some content →
    Dict.get s.conf name = some content ∨ Dict.get content f = some mask

/-- From the first state to the second one, which stands for the fields, only stanzas with stars
have been written. -/
structure Reaches (handler : RestHandler) (f : String) (s s' : ConfServer) (known : Known) :
    Prop where
  represents : handler.Represents f s' known
  written : Written f s s'

/-- The fields that are shown: the secret only to who asks for it. -/
def shownAs (f : String) (decrypt : Bool) (fields : String → Option String) :
    String → Option String :=
  if decrypt then fields else Function.update fields f (some mask)

/-- A response with one stanza. -/
def Shows (f : String) (decrypt : Bool) (known : Known) (name : String) (entries : List Entry) :
    Prop :=
  ∃ entry fields, entries = [entry] ∧ entry.1 = name ∧ known name = some fields ∧
    Dict.get entry.2 = shownAs f decrypt fields

/-! ## Stars in the place of a secret -/

/-- In the second state stars stand in the place of some secrets of the first one. -/
structure Starred (handler : RestHandler) (f : String) (secrets : String → Option String)
    (s s' : ConfServer) : Prop where
  consistent : handler.Consistent f s' secrets
  view_eq : view f s' secrets = view f s secrets
  written : Written f s s'

theorem written_self (f : String) (s : ConfServer) : Written f s s := fun _ _ ↦ Or.inl

theorem Written.trans {s' s'' : ConfServer} (h : Written f s s') (h' : Written f s' s'') :
    Written f s s'' := by
  intro name content hcontent
  rcases h' hcontent with hcontent | hstars
  · exact h hcontent
  · exact Or.inr hstars

theorem Represents.reaches_self (h : handler.Represents f s known) : handler.Reaches f s s known :=
  ⟨h, written_self f s⟩

theorem Written.reaches {s' s'' : ConfServer} (h : Written f s s')
    (h' : handler.Reaches f s' s'' known) : handler.Reaches f s s'' known :=
  ⟨h'.represents, h.trans h'.written⟩

theorem Consistent.starred_self (h : handler.Consistent f s secrets) :
    handler.Starred f secrets s s := ⟨h, rfl, written_self f s⟩

theorem Starred.trans {s' s'' : ConfServer} (h : handler.Starred f secrets s s')
    (h' : handler.Starred f secrets s' s'') : handler.Starred f secrets s s'' :=
  ⟨h'.consistent, h'.view_eq.trans h.view_eq, h.written.trans h'.written⟩

theorem Starred.get_eq_none_iff {s' : ConfServer} (h : handler.Starred f secrets s s') :
    Dict.get s'.conf name = none ↔ Dict.get s.conf name = none := by
  have hview := congrFun h.view_eq name
  rw [view, view] at hview
  rw [← Option.map_eq_none_iff, hview, Option.map_eq_none_iff]

theorem Starred.hidden {s' : ConfServer} (h : handler.Starred f secrets s s')
    (hhidden : Hidden f s name) : Hidden f s' name := by
  obtain ⟨content, hcontent, hstars⟩ := hhidden
  obtain ⟨content', hcontent'⟩ := Option.ne_none_iff_exists'.mp (mt h.get_eq_none_iff.mp
    (Option.ne_none_iff_exists'.mpr ⟨content, hcontent⟩))
  refine ⟨content', hcontent', ?_⟩
  rcases h.written hcontent' with hsame | hstars'
  · rwa [← Option.some.inj (hcontent.symm.trans hsame)]
  · exact hstars'

/-- The secret of a stanza has been taken up: stars may stand in its place. -/
theorem Consistent.hide (h : handler.Consistent f s secrets)
    (hcontent : Dict.get s.conf name = some content)
    (hcurrent : secrets name = current f secrets (name, content)) :
    handler.Starred f secrets s (s.write name [(f, mask)]) ∧
      Hidden f (s.write name [(f, mask)]) name := by
  have hkept := h.kept_of_get hcontent
  obtain ⟨c, hc⟩ := hkept.exists_current
  have hget (key : String) : Dict.get (merge [(f, mask)] content) key =
      if key = f then some mask else Dict.get content key := by
    rw [get_merge, Dict.get, List.lookup_cons, List.lookup_nil]
    split_ifs with hkey
    · rw [hkey, beq_self_eq_true, Option.some_or]
    · rw [beq_false_of_ne hkey, Option.none_or]
  have hmerged : merge [(f, mask)] ((Dict.get s.conf name).getD []) =
      merge [(f, mask)] content := by rw [hcontent, Option.getD_some]
  have hwritten (other : String) : Dict.get (s.write name [(f, mask)]).conf other =
      if other = name then some (merge [(f, mask)] content) else Dict.get s.conf other := by
    rw [ConfServer.write, hmerged, get_setKey]
  refine ⟨⟨h.write ?_ fun key hkey ↦ ?_, ?_, ?_⟩, merge [(f, mask)] content, ?_, ?_⟩
  · rw [hmerged]
    refine ⟨hkept.1, mask, by rw [hget, if_pos rfl], mask_ne_empty, fun _ ↦ ?_⟩
    rw [hcurrent, hc]
    exact Option.some_ne_none c
  · rw [Dict.get, List.lookup_cons, beq_false_of_ne hkey]
    exact (Option.some_ne_none _).symm
  · have hview : view f s secrets name = some (reveal f (secrets name) content) := by
      rw [view, hcontent, Option.map_some]
    rw [view_write, hmerged, reveal_congr hget, Function.update_eq_self_iff, hview,
      Option.some.injEq, Function.update_eq_self_iff, reveal, if_pos rfl]
    exact hcurrent
  · intro other content' hcontent'
    rw [hwritten] at hcontent'
    split_ifs at hcontent'
    · rw [← Option.some.inj hcontent', hget, if_pos rfl]
      exact Or.inr rfl
    · exact Or.inl hcontent'
  · rw [hwritten, if_pos rfl]
  · rw [hget, if_pos rfl]

theorem ends_postStanza {change : RemoteChange} (hcontent : Dict.get s.conf name = some content)
    {Q : Except PyError Unit → ConfServer → Prop} :
    Ends (postStanza change name data) s Q ↔ match change.fault with
      | none => Q (.ok ()) (s.write name data)
      | some e => Q (.error e) (if change.applied then s.write name data else s) := by
  rw [postStanza, ends_get_bind, hcontent]
  exact ends_remotely

theorem Consistent.ends_hide (h : handler.Consistent f s secrets)
    (hcontent : Dict.get s.conf name = some content)
    (hcurrent : secrets name = current f secrets (name, content)) {change : RemoteChange} :
    Ends (postStanza change name [(f, mask)]) s fun r s' ↦
      handler.Starred f secrets s s' ∧
        match r with
        | .ok () => Hidden f s' name
        | .error _ => change.fault ≠ none := by
  obtain ⟨hstarred, hhidden⟩ := h.hide hcontent hcurrent
  rw [ends_postStanza hcontent]
  cases hfault : change.fault with
  | none => exact ⟨hstarred, hhidden⟩
  | some e =>
    refine ⟨?_, Option.some_ne_none e⟩
    split_ifs
    · exact hstarred
    · exact h.starred_self

/-! ## Reading a stanza -/

theorem get_hideSecrets (hone : OneSecret handler f) {c : String} (hc : Dict.get data f = some c)
    (hempty : c ≠ "") :
    Dict.get (handler.hideSecrets data) = Function.update (Dict.get data) f (some mask) := by
  funext key
  rw [hideSecrets, hone.names, List.foldl_cons, List.foldl_nil, hc, nonemptyStr?_some hempty]
  dsimp only
  rw [get_setKey, Function.update_apply]

theorem Consistent.current_ne_empty (h : handler.Consistent f s secrets) {entry : Entry} :
    current f secrets entry ≠ some "" := by
  rw [current, Ne, Option.or_eq_some_iff, not_or, not_and]
  exact ⟨incoming_ne_empty _, fun _ ↦ h.holds.nonempty⟩

theorem Consistent.get_shown (hone : OneSecret handler f) (h : handler.Consistent f s secrets)
    (hcontent : Dict.get s.conf name = some content)
    (hdata : ∀ key, Dict.get data key = reveal f (secrets name) content key) :
    Dict.get (if decrypt then data else handler.hideSecrets data) =
      shownAs f decrypt (reveal f (secrets name) content) := by
  obtain ⟨c, hc⟩ := (h.kept_of_get hcontent).exists_current
  have hsecret : Dict.get data f = some c := by
    rw [hdata, reveal, if_pos rfl]
    exact hc
  have hempty : c ≠ "" := fun heq ↦ h.current_ne_empty (hc.trans (congrArg some heq))
  rw [← funext hdata, shownAs]
  cases decrypt with
  | true => rfl
  | false => exact get_hideSecrets hone hsecret hempty

/-- The body of the loop of `_format_response`, for a stanza that has been read. -/
theorem Consistent.ends_formatEntry (hone : OneSecret handler f)
    (h : handler.Consistent f s secrets) (hcontent : Dict.get s.conf name = some content) :
    Ends (handler.formatEntry answers true decrypt name content) s fun r s' ↦
      handler.Reaches f s s' (view f s secrets) ∧
        match r with
        | .ok entry => entry.1 = name ∧ Hidden f s' name ∧
            Dict.get entry.2 = shownAs f decrypt (reveal f (secrets name) content)
        | .error _ => (answers.mask name).fault ≠ none := by
  have hkept := h.kept_of_get hcontent
  obtain ⟨c, hc⟩ := hkept.exists_current
  obtain ⟨hname, v, hv, hempty, hmask⟩ := hkept
  dsimp only at hname hv
  have hsecret : (incoming (some v)).or (secrets name) = some c := hv ▸ hc
  rw [formatEntry, if_pos rfl, ends_bind, ends_withPasswords]
  refine (h.holds.ends_decryptForGet hone.names hname hempty hv hsecret).mono ?_
  rintro _ after ⟨⟨revealed, rfl, hrevealed⟩, hafter⟩
  obtain ⟨hmiddle, hview, hcurrent⟩ := h.store hcontent hc hafter
  have hshown : Dict.get (if decrypt then revealed else handler.hideSecrets revealed) =
      shownAs f decrypt (reveal f (secrets name) content) := by
    refine h.get_shown hone hcontent fun key ↦ ?_
    rw [hrevealed, reveal, ← hc]
    rfl
  dsimp only
  by_cases hstars : v = mask
  · rw [if_pos hstars, if_neg (not_not.mpr rfl)]
    refine ⟨⟨⟨_, hmiddle, hview⟩, written_self f s⟩, rfl, ⟨content, hcontent, ?_⟩, hshown⟩
    rw [hv, hstars]
  · rw [if_neg hstars, if_pos (List.cons_ne_nil _ _), ends_bind]
    refine (hmiddle.ends_hide hcontent hcurrent).mono ?_
    rintro r last ⟨hstarred, hr⟩
    have hlast : handler.Reaches f s last (view f s secrets) :=
      ⟨⟨_, hstarred.consistent, hstarred.view_eq.trans hview⟩, hstarred.written⟩
    cases r with
    | ok _ => exact ⟨hlast, rfl, hr, hshown⟩
    | error e => exact ⟨hlast, hr⟩

theorem ends_decodeResponse {α : Type} {x : EStateM PyError ConfServer α}
    {Q : Except PyError α → ConfServer → Prop} :
    Ends (decodeResponse answers x) s Q ↔ Ends x s fun r t ↦ match r with
      | .ok a => Q (.ok a) t
      | .error e => Q (.error (restErrorOf answers e)) t := by
  rw [decodeResponse, ends_tryCatch]
  exact Iff.rfl

/-- **`get`.** What is represented is shown, and stays as it is. -/
theorem Represents.ends_getEntity (hone : OneSecret handler f) (h : handler.Represents f s known) :
    Ends (handler.getEntity answers name decrypt) s fun r s' ↦
      handler.Reaches f s s' known ∧
        match r with
        | .ok entries => Shows f decrypt known name entries ∧ Hidden f s' name
        | .error e => answers.Reliable →
            known name = none ∧ ∃ status msg, e = .restError status msg := by
  have hself := h.reaches_self
  obtain ⟨secrets, hs, rfl⟩ := h
  rw [getEntity, ends_decodeResponse, ends_bind, ends_attempt]
  cases hreload : answers.reload with
  | some e =>
    exact ⟨hself, fun hrel ↦ absurd (hreload.symm.trans hrel.reload) (Option.some_ne_none e)⟩
  | none =>
    dsimp only
    rw [ends_bind, ends_attempt]
    cases hread : answers.read with
    | some e =>
      exact ⟨hself, fun hrel ↦ absurd (hread.symm.trans hrel.read) (Option.some_ne_none e)⟩
    | none =>
      dsimp only
      rw [ends_get_bind]
      cases hcontent : Dict.get s.conf name with
      | none =>
        refine ⟨hself, fun _ ↦ ⟨?_, 404, _, rfl⟩⟩
        rw [view, hcontent, Option.map_none]
      | some content =>
        dsimp only
        rw [ends_bind]
        refine (hs.ends_formatEntry hone hcontent).mono ?_
        rintro r s' ⟨hs', hr⟩
        cases r with
        | ok entry =>
          obtain ⟨hname, hhidden, hshown⟩ := hr
          refine ⟨hs', ⟨entry, _, rfl, hname, ?_, hshown⟩, hhidden⟩
          rw [view, hcontent, Option.map_some]
        | error e => exact ⟨hs', fun hrel ↦ absurd (hrel.mask name) hr⟩

theorem Represents.ends_checkExisting_true (hone : OneSecret handler f)
    (h : handler.Represents f s known) :
    Ends (handler.checkExisting answers true name) s fun r s' ↦
      handler.Reaches f s s' known ∧
        match r with
        | .ok existing => Hidden f s' name ∧ ∃ data, existing = some data ∧ data ≠ []
        | .error _ => answers.Reliable → known name = none := by
  rw [checkExisting, if_neg (not_not.mpr rfl), ends_bind, ends_tryCatch]
  refine (h.ends_getEntity hone).mono ?_
  rintro r s' ⟨hs', hr⟩
  cases r with
  | ok entries =>
    obtain ⟨⟨entry, fields, rfl, -, -, hshown⟩, hhidden⟩ := hr
    dsimp only
    rw [if_neg fun hnil ↦ List.cons_ne_nil _ _ hnil.2, if_neg fun hnew ↦ hnew.1 rfl]
    refine ⟨hs', hhidden, entry.2, rfl, fun hnil ↦ ?_⟩
    have hstars := congrFun hshown f
    rw [hnil, shownAs, if_neg Bool.false_ne_true, Function.update_self] at hstars
    exact absurd hstars (Option.some_ne_none _).symm
  | error e =>
    dsimp only
    split
    · rw [ends_pure]
      dsimp only
      rw [if_pos ⟨rfl, rfl⟩]
      exact ⟨hs', fun hrel ↦ (hr hrel).1⟩
    · exact ⟨hs', fun hrel ↦ (hr hrel).1⟩

theorem Represents.ends_checkExisting_false (hone : OneSecret handler f)
    (h : handler.Represents f s known) :
    Ends (handler.checkExisting answers false name) s fun r s' ↦
      handler.Reaches f s s' known ∧
        match r with
        | .ok existing => checkNameForCreate name = .ok () ∧ existing = none ∧
            (answers.Reliable → known name = none)
        | .error _ => answers.Reliable → checkNameForCreate name = .ok () → known name ≠ none := by
  rw [checkExisting, if_pos Bool.false_ne_true, ends_bind, ends_liftExcept]
  cases hcheck : checkNameForCreate name with
  | error e => exact ⟨h.reaches_self, fun _ hok ↦ absurd hok error_ne_ok⟩
  | ok _ =>
    dsimp only
    rw [ends_bind, ends_tryCatch]
    refine (h.ends_getEntity hone).mono ?_
    rintro r s' ⟨hs', hr⟩
    cases r with
    | ok entries =>
      obtain ⟨⟨entry, fields, rfl, -, hknown, -⟩, -⟩ := hr
      dsimp only
      rw [if_neg fun hnil ↦ Bool.false_ne_true hnil.1,
        if_pos ⟨Bool.false_ne_true, List.cons_ne_nil _ _⟩]
      refine ⟨hs', fun _ _ ↦ ?_⟩
      rw [hknown]
      exact Option.some_ne_none fields
    | error e =>
      dsimp only
      split
      · rw [ends_pure]
        dsimp only
        rw [if_neg fun hnil ↦ Bool.false_ne_true hnil.1, if_neg fun hnil ↦ hnil.2 rfl]
        exact ⟨hs', rfl, rfl, fun hrel ↦ (hr hrel).1⟩
      · rename_i hother
        refine ⟨hs', fun hrel _ ↦ ?_⟩
        obtain ⟨-, status, msg, heq⟩ := hr hrel
        exact absurd heq (hother status msg)

/-! ## Listing all stanzas -/

theorem incoming_eq_none_iff {v : String} (hempty : v ≠ "") :
    incoming (some v) = none ↔ v = mask := by
  by_cases hmask : v = mask
  · rw [hmask, incoming_mask]
    exact iff_of_true rfl rfl
  · rw [incoming_of_ne hempty hmask]
    exact iff_of_false (Option.some_ne_none v) hmask

theorem maskedFields_eq (hone : OneSecret handler f)
    (hin : (incoming (Dict.get content f)).isSome = true) :
    handler.maskedFields content = [(f, mask)] := by
  obtain ⟨v, hv⟩ := Option.isSome_iff_exists.mp hin
  obtain ⟨hsome, hmask⟩ := Option.filter_eq_some_iff.mp hv
  rw [maskedFields, hone.names, List.foldl_cons, List.foldl_nil, hsome]
  dsimp only
  rw [if_pos (of_decide_eq_true hmask)]
  rfl

theorem Consistent.ends_maskChanges (hone : OneSecret handler f)
    (h : handler.Consistent f s secrets) (htaken : ∀ {name content},
      Dict.get s.conf name = some content → secrets name = current f secrets (name, content))
    {changes : List Entry} (hchanges : ∀ entry ∈ changes,
      (incoming (Dict.get entry.2 f)).isSome = true ∧ Dict.get s.conf entry.1 ≠ none) :
    Ends (handler.maskChanges answers changes) s fun r s' ↦
      handler.Starred f secrets s s' ∧
        match r with
        | .ok _ => ∀ entry ∈ changes, Hidden f s' entry.1
        | .error _ => ¬answers.Reliable := by
  induction changes generalizing s with
  | nil => exact ⟨h.starred_self, fun entry hmem ↦ absurd hmem List.not_mem_nil⟩
  | cons entry changes ih =>
    obtain ⟨name, content⟩ := entry
    rw [List.forall_mem_cons] at hchanges
    obtain ⟨⟨hin, hthere⟩, hrest⟩ := hchanges
    obtain ⟨stored, hstored⟩ := Option.ne_none_iff_exists'.mp hthere
    rw [maskChanges, maskedFields_eq hone hin, if_pos (List.cons_ne_nil _ _), ends_bind]
    refine (h.ends_hide hstored (htaken hstored)).mono ?_
    rintro r middle ⟨hstarred, hr⟩
    cases r with
    | error e => exact ⟨hstarred, fun hrel ↦ hr (hrel.mask name)⟩
    | ok _ =>
      refine (ih hstarred.consistent (fun {other content} hcontent ↦ ?_) fun entry hmem ↦
        ⟨(hrest entry hmem).1, mt hstarred.get_eq_none_iff.mp (hrest entry hmem).2⟩).mono ?_
      · rcases hstarred.written hcontent with hcontent | hstars
        · exact htaken hcontent
        · rw [current, hstars, incoming_mask, Option.none_or]
      · rintro r last ⟨hlast, hr'⟩
        refine ⟨hstarred.trans hlast, ?_⟩
        cases r with
        | error e => exact hr'
        | ok _ => exact List.forall_mem_cons.mpr ⟨hlast.hidden hr, hr'⟩

theorem map_fst_of_forall₂ {entries entries' : List Entry}
    (h : List.Forall₂ (Revealed f secrets) entries entries') :
    entries'.map Prod.fst = entries.map Prod.fst := by
  induction h with
  | nil => rfl
  | cons hrevealed _ ih => rw [List.map_cons, List.map_cons, ih, hrevealed.1]

theorem exists_of_forall₂ {entries entries' : List Entry}
    (h : List.Forall₂ (Revealed f secrets) entries entries') :
    ∀ entry' ∈ entries', ∃ entry ∈ entries, Revealed f secrets entry entry' := by
  induction h with
  | nil => exact fun entry hmem ↦ absurd hmem List.not_mem_nil
  | @cons entry entry' entries entries' hrevealed _ ih =>
    refine List.forall_mem_cons.mpr ⟨⟨entry, List.mem_cons_self, hrevealed⟩, fun other hmem ↦ ?_⟩
    obtain ⟨entry, hmem, hrevealed⟩ := ih other hmem
    exact ⟨entry, List.mem_cons_of_mem _ hmem, hrevealed⟩

theorem Consistent.ends_encryptRawCredentials (hone : OneSecret handler f)
    (h : handler.Consistent f s secrets) :
    Ends (handler.encryptRawCredentials answers s.conf) s fun r s' ↦
      handler.Reaches f s s' (view f s secrets) ∧
        match r with
        | .ok revealed => List.Forall₂ (Revealed f secrets) s.conf revealed ∧
            ∀ name, Dict.get s.conf name ≠ none → Hidden f s' name
        | .error _ => ¬answers.Reliable := by
  rw [encryptRawCredentials, ends_bind, ends_withPasswords]
  refine (h.holds.ends_decryptAll hone.names h.nodup h.kept).mono ?_
  rintro _ after ⟨⟨revealed, changes, rfl, hrevealed, hperm⟩, hafter⟩
  have hview : view f { s with passwords := after } (absorb f s.conf secrets) =
      view f s secrets := takenUp_absorb.view_eq
  have hmiddle : handler.Consistent f { s with passwords := after } (absorb f s.conf secrets) := by
    refine h.passwords hafter fun name _ hname ↦ ?_
    rw [absorb, Ne, Option.or_eq_none_iff, not_and]
    exact fun _ ↦ hname
  have htaken {name : String} {content : Fields} (hcontent : Dict.get s.conf name = some content) :
      absorb f s.conf secrets name = current f (absorb f s.conf secrets) (name, content) := by
    rw [current, absorb, ← Dict.get, hcontent, Option.bind_some, ← Option.or_assoc, Option.or_self]
  have hchanges : ∀ entry ∈ changes,
      (incoming (Dict.get entry.2 f)).isSome = true ∧ Dict.get s.conf entry.1 ≠ none := by
    intro entry hmem
    obtain ⟨hmem, hin⟩ := List.mem_filter.mp (hperm.mem_iff.mp hmem)
    rw [h.mem_iff.mp hmem]
    exact ⟨hin, Option.some_ne_none _⟩
  dsimp only
  rw [ends_bind]
  refine (hmiddle.ends_maskChanges hone htaken hchanges).mono ?_
  rintro r last ⟨hstarred, hr⟩
  have hlast : handler.Reaches f s last (view f s secrets) :=
    ⟨⟨_, hstarred.consistent, hstarred.view_eq.trans hview⟩, hstarred.written⟩
  cases r with
  | error e => exact ⟨hlast, hr⟩
  | ok _ =>
    refine ⟨hlast, hrevealed, fun name hname ↦ ?_⟩
    obtain ⟨content, hcontent⟩ := Option.ne_none_iff_exists'.mp hname
    obtain ⟨-, v, hv, hempty, -⟩ := h.kept_of_get hcontent
    by_cases hmask : v = mask
    · exact hstarred.hidden ⟨content, hcontent, hmask ▸ hv⟩
    · refine hr (name, content) (hperm.mem_iff.mpr (List.mem_filter.mpr
        ⟨h.mem_iff.mpr hcontent, ?_⟩))
      rw [hv, incoming_of_ne hempty hmask]
      rfl

/-- **`all`.** All that is represented is shown, and stays as it is. Afterwards stars stand in all
stanzas. -/
theorem Represents.ends_all (hone : OneSecret handler f) (h : handler.Represents f s known) :
    Ends (handler.all answers decrypt) s fun r s' ↦
      handler.Reaches f s s' known ∧
        match r with
        | .ok entries => (∀ entry ∈ entries, ∃ fields, known entry.1 = some fields ∧
            Dict.get entry.2 = shownAs f decrypt fields) ∧
            ∀ name, known name ≠ none → name ∈ entries.map Prod.fst ∧ Hidden f s' name
        | .error _ => ¬answers.Reliable := by
  have hself := h.reaches_self
  obtain ⟨secrets, hs, rfl⟩ := h
  rw [all, ends_decodeResponse, ends_bind, ends_attempt]
  cases hreload : answers.reload with
  | some e =>
    exact ⟨hself, fun hrel ↦ absurd (hreload.symm.trans hrel.reload) (Option.some_ne_none e)⟩
  | none =>
    dsimp only
    rw [ends_bind, ends_attempt]
    cases hread : answers.read with
    | some e =>
      exact ⟨hself, fun hrel ↦ absurd (hread.symm.trans hrel.read) (Option.some_ne_none e)⟩
    | none =>
      have hnames : handler.credentials.encryptedFieldNames ≠ [] :=
        hone.names ▸ List.cons_ne_nil f []
      dsimp only
      rw [ends_get_bind, if_pos hnames, ends_bind]
      refine (hs.ends_encryptRawCredentials hone).mono ?_
      rintro r s' ⟨hs', hr⟩
      cases r with
      | error e => exact ⟨hs', hr⟩
      | ok revealed =>
        obtain ⟨hrevealed, hhidden⟩ := hr
        have hshown : (if decrypt then revealed else revealed.map fun entry ↦
            (entry.1, handler.hideSecrets entry.2)) = revealed.map fun entry ↦
              (entry.1, if decrypt then entry.2 else handler.hideSecrets entry.2) := by
          cases decrypt with
          | true => exact List.map_id'' (fun _ ↦ rfl) _ |>.symm
          | false => rfl
        dsimp only
        rw [hshown]
        have hthere {name : String} (hname : view f s secrets name ≠ none) :
            Dict.get s.conf name ≠ none :=
          mt Option.map_eq_none_iff.mpr hname
        refine ⟨hs', ?_, fun name hname ↦ ⟨?_, hhidden name (hthere hname)⟩⟩
        · rw [List.forall_mem_map]
          intro entry' hmem
          obtain ⟨⟨name, content⟩, hin, hname, hget⟩ := exists_of_forall₂ hrevealed entry' hmem
          have hcontent := hs.mem_iff.mp hin
          refine ⟨reveal f (secrets name) content, ?_, hs.get_shown hone hcontent hget⟩
          rw [hname, view, hcontent, Option.map_some]
        · rw [List.map_map]
          refine (map_fst_of_forall₂ hrevealed).symm ▸ ?_
          exact lookup_eq_none_iff_notMem.not_left.mp (hthere hname)

end RestHandler

end MsSecurity
