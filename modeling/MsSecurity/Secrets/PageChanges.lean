import MsSecurity.Secrets.PageRequests

/-!
# Changes through the page

Creating, editing and deleting a stanza change what the state stands for at that stanza, and nowhere
else. A request that is not refused may fail on the way, and then its secret may have been stored
before the stanza is written.
-/

namespace MsSecurity

open InputStanza (Fields merge get_merge checkNameForCreate)
open RestCredentials

namespace RestHandler

variable {handler : RestHandler} {f : String} {answers : RestAnswers} {s : ConfServer}
  {known : Known} {secrets : String → Option String} {name : String} {content data : Fields}

/-- What a request to change the fields comes to: they are changed, or it is refused. Where
something goes wrong on the way it may have been carried out, or half of it. -/
def Attempted (answers : RestAnswers) (refused : Prop) (known half changed : Known)
    (shown : List Entry → Prop) : Except PyError (List Entry) → Known → Prop
  | .ok entries, after => ¬refused ∧ after = changed ∧ shown entries
  | .error _, after => (after = known ∨ after = half ∨ ¬refused ∧ after = changed) ∧
      (answers.Reliable → refused ∧ after = known)

/-! ## Saving a stanza -/

/-- The fields with another secret, if there is one. -/
def withSecret (f : String) (secret : Option String) (fields : String → Option String) :
    String → Option String :=
  Function.update fields f (secret.or (fields f))

/-- The fields with a secret, and with other fields over them. -/
def saved (f : String) (secret : Option String) (data : Fields)
    (fields : Option (String → Option String)) (key : String) : Option String :=
  if key = f then secret else (Dict.get data key).or (fields.bind fun fields ↦ fields key)

theorem view_update_of_hidden {secret : Option String} {after : Passwords}
    (hcontent : Dict.get s.conf name = some content) (hstars : Dict.get content f = some mask) :
    view f { s with passwords := after } (Function.update secrets name secret) =
      Function.update (view f s secrets) name
        (some (Function.update (reveal f (secrets name) content) f secret)) := by
  funext other
  by_cases hother : other = name
  · subst hother
    rw [Function.update_self, view, Function.update_self]
    dsimp only
    rw [hcontent, Option.map_some]
    refine congrArg some (funext fun key ↦ ?_)
    rw [reveal, hstars, incoming_mask, Option.none_or, Function.update_apply]
    split_ifs with hkey
    · rfl
    · rw [reveal, if_neg hkey]
  · rw [Function.update_of_ne hother, view, view, Function.update_of_ne hother]

theorem view_update_of_incoming {secret : Option String} {after : Passwords}
    (hin : ∀ content, Dict.get s.conf name = some content → incoming (Dict.get content f) ≠ none) :
    view f { s with passwords := after } (Function.update secrets name secret) =
      view f s secrets := by
  funext other
  by_cases hother : other = name
  · subst hother
    rw [view, view]
    cases hcontent : Dict.get s.conf other with
    | none => rfl
    | some content =>
      obtain ⟨v, hv⟩ := Option.ne_none_iff_exists'.mp (hin content hcontent)
      refine congrArg some (funext fun key ↦ ?_)
      rw [reveal, reveal, hv, Option.some_or, Option.some_or]
  · rw [view, view, Function.update_of_ne hother]

theorem Consistent.ends_save (h : handler.Consistent f s secrets) (hname : PlainName name)
    {w : String} (hw : secrets name = some w) (hstars : Dict.get data f = some mask)
    (hunmasked : ∀ key, key ≠ f → Dict.get data key ≠ some mask) (change : RemoteChange) :
    Ends (remotely change (ConfServer.write name data)) s fun r s' ↦
      match r with
      | .ok _ => Hidden f s' name ∧ handler.Reaches f s s' (Function.update (view f s secrets) name
          (some (saved f (some w) data (view f s secrets name))))
      | .error _ => change.fault ≠ none ∧ (handler.Reaches f s s' (view f s secrets) ∨
          handler.Reaches f s s' (Function.update (view f s secrets) name
            (some (saved f (some w) data (view f s secrets name))))) := by
  set stanza := merge data ((Dict.get s.conf name).getD []) with hstanza
  have hmask : Dict.get stanza f = some mask := by
    rw [hstanza, get_merge, hstars, Option.some_or]
  have hwrite : handler.Consistent f (s.write name data) secrets := by
    refine h.write ⟨hname, mask, hmask, mask_ne_empty, fun _ ↦ ?_⟩ hunmasked
    rw [hw]
    exact Option.some_ne_none w
  have hview : view f (s.write name data) secrets = Function.update (view f s secrets) name
      (some (saved f (some w) data (view f s secrets name))) := by
    rw [view_write, ← hstanza]
    refine congrArg (Function.update _ name) (congrArg some (funext fun key ↦ ?_))
    rw [reveal, hmask, incoming_mask, Option.none_or, hw, saved]
    by_cases hkey : key = f
    · rw [if_pos hkey, if_pos hkey]
    · rw [if_neg hkey, if_neg hkey, hstanza, get_merge, view]
      cases Dict.get s.conf name with
      | none => rfl
      | some content =>
        rw [Option.getD_some, Option.map_some, Option.bind_some, reveal, if_neg hkey]
  have hhidden : Hidden f (s.write name data) name :=
    ⟨stanza, by rw [ConfServer.write, get_setKey, if_pos rfl], hmask⟩
  have hwritten : Written f s (s.write name data) := by
    intro other content hcontent
    rw [ConfServer.write, get_setKey] at hcontent
    split_ifs at hcontent
    · rw [← Option.some.inj hcontent]
      exact Or.inr hmask
    · exact Or.inl hcontent
  rw [ends_remotely]
  cases hfault : change.fault with
  | none => exact ⟨hhidden, ⟨_, hwrite, hview⟩, hwritten⟩
  | some e =>
    refine ⟨Option.some_ne_none e, ?_⟩
    split_ifs
    · exact Or.inr ⟨⟨_, hwrite, hview⟩, hwritten⟩
    · exact Or.inl ⟨⟨_, h, rfl⟩, written_self f s⟩

theorem Represents.ends_respond (hone : OneSecret handler f) (h : handler.Represents f s known)
    (hhidden : Hidden f s name) : Ends (handler.respond answers name) s fun r s' ↦
      s' = s ∧ ∃ entries, .ok entries = r ∧ Shows f false known name entries := by
  obtain ⟨secrets, hs, rfl⟩ := h
  obtain ⟨content, hcontent, hstars⟩ := hhidden
  rw [respond, ends_get_bind, hcontent]
  refine ⟨rfl, _, rfl, _, reveal f (secrets name) content, rfl, rfl, ?_, ?_⟩
  · rw [view, hcontent, Option.map_some]
  · rw [if_neg Bool.false_ne_true, shownAs, if_neg Bool.false_ne_true, Option.getD_some,
      get_hideSecrets hone hstars mask_ne_empty]
    funext key
    rw [Function.update_apply, Function.update_apply]
    refine ite_congr rfl (fun _ ↦ rfl) fun hkey ↦ ?_
    rw [reveal, if_neg hkey]

theorem validateFields_eq_ok_iff {existing : Option Fields} {fields : List PageField} :
    validateFields data existing fields = .ok () ↔
      ∀ field ∈ fields, field.validate data existing = .ok () := by
  induction fields with
  | nil => exact iff_of_true rfl fun field hmem ↦ absurd hmem List.not_mem_nil
  | cons field fields ih =>
    rw [validateFields, bind_eq_ok_iff, List.forall_mem_cons, ← ih]
    constructor
    · rintro ⟨_, hfield, hrest⟩
      exact ⟨hfield, hrest⟩
    · rintro ⟨hfield, hrest⟩
      exact ⟨(), hfield, hrest⟩

theorem exists_of_validateFields_none (hone : OneSecret handler f)
    (hvalid : validateFields data none handler.fields = .ok ()) :
    ∃ v, Dict.get data f = some v ∧ v ≠ "" := by
  obtain ⟨field, hmem, rfl, hrequired⟩ := hone.required
  have hfield := validateFields_eq_ok_iff.mp hvalid field hmem
  rw [PageField.validate] at hfield
  cases hvalue : nonemptyStr? (Dict.get data field.name) with
  | some v => exact ⟨v, nonemptyStr?_eq_some_iff.mp hvalue⟩
  | none =>
    rw [if_neg fun h ↦ h.1 rfl, hvalue] at hfield
    dsimp only at hfield
    rw [if_pos ⟨rfl, hrequired⟩] at hfield
    exact absurd hfield error_ne_ok

theorem ne_empty_of_validateFields_some (hone : OneSecret handler f) {existing : Fields}
    (hne : existing ≠ []) (hvalid : validateFields data (some existing) handler.fields = .ok ()) :
    Dict.get data f ≠ some "" := by
  obtain ⟨field, hmem, rfl, hrequired⟩ := hone.required
  have hfield := validateFields_eq_ok_iff.mp hvalid field hmem
  intro hempty
  rw [PageField.validate, hempty, if_pos ⟨hne, rfl, rfl, hrequired⟩] at hfield
  exact error_ne_ok hfield

/-- Of the stanza that is there, it only counts that it is not empty. -/
theorem validateFields_congr {existing existing' : Fields} (hne : existing ≠ [])
    (hne' : existing' ≠ []) {fields : List PageField} :
    validateFields data (some existing) fields = validateFields data (some existing') fields := by
  induction fields with
  | nil => rfl
  | cons field fields ih =>
    rw [validateFields, validateFields, ih, PageField.validate, PageField.validate]
    simp only [Option.getD_some, ne_eq, hne, hne', not_false_eq_true, true_and, reduceCtorEq,
      false_and, if_false]

/-! ## Creating a stanza -/

/-- The name is not allowed or in use, or the fields are not valid. -/
def CreateRefused (handler : RestHandler) (known : Known) (name : String) (data : Fields) : Prop :=
  checkNameForCreate name ≠ .ok () ∨ known name ≠ none ∨
    validateFields data none handler.fields ≠ .ok ()

theorem get_del_apply {α : Type} (d : Dict α) (key k : String) :
    Dict.get (Dict.del d key) k = if k = key then none else Dict.get d k := by
  have hfilter := Dict.get_filter (fun k ↦ decide (k ≠ key)) d k
  rw [Dict.del, hfilter]
  by_cases hkey : k = key
  · have hnot : ¬decide (k ≠ key) = true := by simp [hkey]
    rw [if_pos hkey, if_neg hnot]
  · rw [if_neg hkey, if_pos (decide_eq_true hkey)]

theorem get_createBody (hne : f ≠ "name") (hdata : Dict.get data "name" = none) (key : String) :
    Dict.get (Dict.del (setKey (setKey data "name" name) f mask) "name") key =
      if key = f then some mask else Dict.get data key := by
  rw [get_del_apply, get_setKey, get_setKey]
  by_cases hkey : key = "name"
  · rw [if_pos hkey, hkey, if_neg hne.symm, hdata]
  · rw [if_neg hkey, if_neg hkey]

theorem Consistent.ends_encryptAndCreate (hone : OneSecret handler f)
    (h : handler.Consistent f s secrets) (hname : PlainName name) {v : String}
    (hv : Dict.get data f = some v) (hempty : v ≠ "") (hdata : Dict.get data "name" = none)
    (hunmasked : ∀ key, key ≠ f → Dict.get data key ≠ some mask) :
    Ends (do
      let data ← withPasswords (handler.credentials.encryptForCreate name (setKey data "name" name))
      createStanza answers.save name (Dict.del data "name")
      handler.respond answers name) s fun r s' ↦
        match r with
        | .ok entries => view f s secrets name = none ∧
            handler.Reaches f s s' (Function.update (view f s secrets) name
              (some (Dict.get data))) ∧
            Shows f false (Function.update (view f s secrets) name (some (Dict.get data))) name
              entries
        | .error _ => (view f s secrets name = none → answers.save.fault ≠ none) ∧
            (handler.Reaches f s s' (view f s secrets) ∨
            handler.Reaches f s s' (Function.update (view f s secrets) name
              ((view f s secrets name).map (withSecret f (Dict.get data f)))) ∨
            view f s secrets name = none ∧ handler.Reaches f s s' (Function.update
              (view f s secrets) name (some (Dict.get data)))) := by
  have hnamed : Dict.get (setKey data "name" name) f = some v := by
    rw [get_setKey, if_neg hone.ne_name, hv]
  rw [ends_bind, ends_withPasswords]
  refine (h.holds.ends_encryptForCreate hone.names hname hempty hnamed).mono ?_
  rintro _ after ⟨rfl, hafter⟩
  have hmiddle := h.passwords_update hafter
  have hwritten : Written f s { s with passwords := after } := written_self f s
  dsimp only
  rw [ends_bind, createStanza, ends_get_bind]
  dsimp only
  cases hcontent : Dict.get s.conf name with
  | some content =>
    have hknown : view f s secrets name = some (reveal f (secrets name) content) := by
      rw [view, hcontent, Option.map_some]
    refine ⟨fun hnone ↦ absurd (hknown.symm.trans hnone) (Option.some_ne_none _), ?_⟩
    by_cases hstars : Dict.get content f = some mask
    · refine Or.inr (Or.inl ⟨⟨_, hmiddle, ?_⟩, hwritten⟩)
      rw [view_update_of_hidden hcontent hstars, hknown, Option.map_some, withSecret, hv,
        Option.some_or]
    · refine Or.inl ⟨⟨_, hmiddle, view_update_of_incoming fun content' hcontent' ↦ ?_⟩, hwritten⟩
      obtain rfl := Option.some.inj (hcontent.symm.trans hcontent')
      obtain ⟨-, u, hu, hne, -⟩ := h.kept_of_get hcontent
      rw [hu]
      exact fun hin ↦ hstars (hu.trans (congrArg some ((incoming_eq_none_iff hne).mp hin)))
  | none =>
    have hknown : view f s secrets name = none := by rw [view, hcontent, Option.map_none]
    have hview : view f { s with passwords := after } (Function.update secrets name (some v)) =
        view f s secrets :=
      view_update_of_incoming fun content hcontent' ↦
        absurd (hcontent.symm.trans hcontent') (Option.some_ne_none content).symm
    have hbody (key : String) : Dict.get (Dict.del (setKey (setKey data "name" name) f mask) "name")
        key = if key = f then some mask else Dict.get data key :=
      get_createBody hone.ne_name hdata key
    have hfields : saved f (some v) (Dict.del (setKey (setKey data "name" name) f mask) "name")
        none = Dict.get data := by
      funext key
      rw [saved, hbody, Option.bind_none, Option.or_none]
      split_ifs with hkey
      · rw [hkey, hv]
      · rfl
    have hsaving := hmiddle.ends_save hname (Function.update_self name (some v) secrets)
      (by rw [hbody, if_pos rfl]) (fun key hkey ↦ by
        rw [hbody, if_neg hkey]
        exact hunmasked key hkey) answers.save
    rw [hview, hknown, hfields] at hsaving
    refine hsaving.mono ?_
    rintro r s' hr
    cases r with
    | ok _ =>
      obtain ⟨hhidden, hsaved⟩ := hr
      refine (hsaved.represents.ends_respond hone hhidden).mono ?_
      rintro _ _ ⟨rfl, entries, rfl, hshows⟩
      exact ⟨hknown, hwritten.reaches hsaved, hshows⟩
    | error e =>
      obtain ⟨hfault, hs'⟩ := hr
      exact ⟨fun _ ↦ hfault, hs'.imp hwritten.reaches fun hs' ↦
        Or.inr ⟨hknown, hwritten.reaches hs'⟩⟩

/-- **`create`.** A stanza is created with the fields of the payload. A request that fails may have
replaced the secret of a stanza of that name, where that could not be read. -/
theorem Represents.ends_create (hone : OneSecret handler f) (h : handler.Represents f s known)
    (hname : PlainName name) (hdata : Dict.get data "name" = none)
    (hunmasked : ∀ key, key ≠ f → Dict.get data key ≠ some mask) :
    Ends (handler.create answers name data) s fun r s' ↦ ∃ after, handler.Reaches f s s' after ∧
      Attempted answers (handler.CreateRefused known name data) known
        (Function.update known name ((known name).map (withSecret f (Dict.get data f))))
        (Function.update known name (some (Dict.get data))) (Shows f false after name) r after := by
  rw [create, ends_decodeResponse, ends_bind]
  refine (h.ends_checkExisting_false hone).mono ?_
  rintro r s₁ ⟨hs₁, hr⟩
  cases r with
  | error e =>
    refine ⟨known, hs₁, Or.inl rfl, fun hrel ↦ ⟨?_, rfl⟩⟩
    by_cases hcheck : checkNameForCreate name = .ok ()
    · exact Or.inr (Or.inl (hr hrel hcheck))
    · exact Or.inl hcheck
  | ok existing =>
    obtain ⟨hcheck, rfl, hnone⟩ := hr
    dsimp only
    rw [ends_bind, ends_liftExcept]
    cases hvalid : validateFields data none handler.fields with
    | error e =>
      refine ⟨known, hs₁, Or.inl rfl, fun hrel ↦ ⟨Or.inr (Or.inr ?_), rfl⟩⟩
      rw [hvalid]
      exact error_ne_ok
    | ok _ =>
      obtain ⟨v, hv, hempty⟩ := exists_of_validateFields_none hone hvalid
      obtain ⟨⟨secrets, hs, rfl⟩, hwritten⟩ := hs₁
      have haccepted (hknown : view f s₁ secrets name = none) :
          ¬handler.CreateRefused (view f s₁ secrets) name data := by
        rw [CreateRefused, hcheck, hknown, hvalid]
        exact fun hrefused ↦ hrefused.elim (fun h ↦ h rfl) fun h ↦ h.elim (fun h ↦ h rfl)
          fun h ↦ h rfl
      refine (hs.ends_encryptAndCreate hone hname hv hempty hdata hunmasked).mono ?_
      rintro r s₂ hr
      cases r with
      | ok entries =>
        obtain ⟨hknown, hs₂, hshows⟩ := hr
        exact ⟨_, hwritten.reaches hs₂, haccepted hknown, rfl, hshows⟩
      | error e =>
        obtain ⟨hfault, hs₂⟩ := hr
        have hunreliable (hrel : answers.Reliable) : False := hfault (hnone hrel) hrel.save
        rcases hs₂ with hs₂ | hs₂ | ⟨hknown, hs₂⟩
        · exact ⟨_, hwritten.reaches hs₂, Or.inl rfl, fun hrel ↦ (hunreliable hrel).elim⟩
        · exact ⟨_, hwritten.reaches hs₂, Or.inr (Or.inl rfl), fun hrel ↦ (hunreliable hrel).elim⟩
        · exact ⟨_, hwritten.reaches hs₂, Or.inr (Or.inr ⟨haccepted hknown, rfl⟩),
            fun hrel ↦ (hunreliable hrel).elim⟩

/-! ## Editing a stanza -/

/-- The fields with those of a payload over them, where stars keep the secret. -/
def edited (f : String) (payload : Fields) (fields : String → Option String) :
    String → Option String :=
  saved f ((incoming (Dict.get payload f)).or (fields f)) payload (some fields)

/-- There is no stanza, or the fields are not valid. -/
def EditRefused (handler : RestHandler) (f : String) (known : Known) (name : String)
    (data : Fields) : Prop :=
  known name = none ∨ validateFields data (some [(f, mask)]) handler.fields ≠ .ok ()

theorem Consistent.ends_encryptAndPost (hone : OneSecret handler f)
    (h : handler.Consistent f s secrets) (hhidden : Hidden f s name)
    (hempty : Dict.get data f ≠ some "")
    (hunmasked : ∀ key, key ≠ f → Dict.get data key ≠ some mask) :
    Ends (do
      let data ← withPasswords (handler.credentials.encryptForUpdate name data)
      postStanza answers.save name data
      handler.respond answers name) s fun r s' ↦
        match r with
        | .ok entries => handler.Reaches f s s' (Function.update (view f s secrets) name
              ((view f s secrets name).map (edited f data))) ∧
            Shows f false (Function.update (view f s secrets) name
              ((view f s secrets name).map (edited f data))) name entries
        | .error _ => answers.save.fault ≠ none ∧
            (handler.Reaches f s s' (Function.update (view f s secrets) name
              ((view f s secrets name).map (withSecret f (incoming (Dict.get data f))))) ∨
            handler.Reaches f s s' (Function.update (view f s secrets) name
              ((view f s secrets name).map (edited f data)))) := by
  obtain ⟨content, hcontent, hstars⟩ := hhidden
  obtain ⟨hname, v, hv, -, hmask⟩ := h.kept_of_get hcontent
  obtain ⟨w, hw⟩ := Option.ne_none_iff_exists'.mp (hmask (Option.some.inj (hv.symm.trans hstars)))
  have hknown : view f s secrets name = some (reveal f (secrets name) content) := by
    rw [view, hcontent, Option.map_some]
  have hsecret : some ((incoming (Dict.get data f)).getD w) =
      (incoming (Dict.get data f)).or (reveal f (secrets name) content f) := by
    rw [reveal, if_pos rfl, hstars, incoming_mask, Option.none_or]
    have hw : secrets name = some w := hw
    rw [hw]
    cases incoming (Dict.get data f) <;> rfl
  rw [ends_bind, ends_withPasswords]
  refine (h.holds.ends_encryptForUpdate hone.names hname hw hempty).mono ?_
  rintro _ after ⟨rfl, hafter⟩
  set w' := (incoming (Dict.get data f)).getD w
  have hmiddle := h.passwords_update hafter
  have hwritten : Written f s { s with passwords := after } := written_self f s
  have hview : view f { s with passwords := after } (Function.update secrets name (some w')) =
      Function.update (view f s secrets) name
        ((view f s secrets name).map (withSecret f (incoming (Dict.get data f)))) := by
    rw [view_update_of_hidden hcontent hstars, hknown, Option.map_some, withSecret, hsecret]
  have hfields : saved f (some w') (withMask data f)
      ((view f s secrets name).map (withSecret f (incoming (Dict.get data f)))) =
        edited f data (reveal f (secrets name) content) := by
    funext key
    rw [edited, saved, saved, ← hsecret, get_withMask]
    split_ifs with hkey
    · rfl
    · rw [hknown, Option.map_some, Option.bind_some, Option.bind_some, withSecret,
        Function.update_of_ne hkey]
  have hmasked : Dict.get (withMask data f) f = some mask := by rw [get_withMask, if_pos rfl]
  have hothers : ∀ key, key ≠ f → Dict.get (withMask data f) key ≠ some mask := by
    intro key hkey
    rw [get_withMask, if_neg hkey]
    exact hunmasked key hkey
  have hsaving := hmiddle.ends_save hname (Function.update_self name (some w') secrets) hmasked
    hothers answers.save
  rw [hview, Function.update_self, hfields, Function.update_idem] at hsaving
  dsimp only
  rw [ends_bind, postStanza, ends_get_bind]
  dsimp only
  rw [hcontent, hknown, Option.map_some, Option.map_some]
  rw [hknown, Option.map_some] at hsaving
  refine hsaving.mono ?_
  rintro r s' hr
  cases r with
  | ok _ =>
    obtain ⟨hhidden, hsaved⟩ := hr
    refine (hsaved.represents.ends_respond hone hhidden).mono ?_
    rintro _ _ ⟨rfl, entries, rfl, hshows⟩
    exact ⟨hwritten.reaches hsaved, hshows⟩
  | error e =>
    obtain ⟨hfault, hs'⟩ := hr
    exact ⟨hfault, hs'.imp hwritten.reaches hwritten.reaches⟩

/-- **`update`.** The fields of the payload are put over those of the stanza. A request that fails
may have replaced the secret. -/
theorem Represents.ends_update (hone : OneSecret handler f) (h : handler.Represents f s known)
    (hunmasked : ∀ key, key ≠ f → Dict.get data key ≠ some mask) :
    Ends (handler.update answers name data) s fun r s' ↦ ∃ after, handler.Reaches f s s' after ∧
      Attempted answers (handler.EditRefused f known name data) known
        (Function.update known name ((known name).map (withSecret f (incoming (Dict.get data f)))))
        (Function.update known name ((known name).map (edited f data)))
        (Shows f false after name) r after := by
  rw [update, ends_decodeResponse, ends_bind]
  refine (h.ends_checkExisting_true hone).mono ?_
  rintro r s₁ ⟨hs₁, hr⟩
  cases r with
  | error e => exact ⟨known, hs₁, Or.inl rfl, fun hrel ↦ ⟨Or.inl (hr hrel), rfl⟩⟩
  | ok existing =>
    obtain ⟨hhidden, existing, rfl, hne⟩ := hr
    have hcongr : validateFields data (some existing) handler.fields =
        validateFields data (some [(f, mask)]) handler.fields :=
      validateFields_congr hne (List.cons_ne_nil _ _)
    dsimp only
    rw [ends_bind, ends_liftExcept]
    cases hvalid : validateFields data (some existing) handler.fields with
    | error e =>
      refine ⟨known, hs₁, Or.inl rfl, fun hrel ↦ ⟨Or.inr ?_, rfl⟩⟩
      rw [← hcongr, hvalid]
      exact error_ne_ok
    | ok _ =>
      obtain ⟨⟨secrets, hs, rfl⟩, hwritten⟩ := hs₁
      have haccepted : ¬handler.EditRefused f (view f s₁ secrets) name data := by
        obtain ⟨content, hcontent, -⟩ := hhidden
        rw [EditRefused, view, hcontent, ← hcongr, hvalid]
        exact fun hrefused ↦ hrefused.elim (Option.some_ne_none _) fun h ↦ h rfl
      refine (hs.ends_encryptAndPost hone hhidden (ne_empty_of_validateFields_some hone hne
        hvalid) hunmasked).mono ?_
      rintro r s₂ hr
      cases r with
      | ok entries => exact ⟨_, hwritten.reaches hr.1, haccepted, rfl, hr.2⟩
      | error e =>
        obtain ⟨hfault, hs₂⟩ := hr
        have hunreliable (hrel : answers.Reliable) : False := hfault hrel.save
        rcases hs₂ with hs₂ | hs₂
        · exact ⟨_, hwritten.reaches hs₂, Or.inr (Or.inl rfl), fun hrel ↦ (hunreliable hrel).elim⟩
        · exact ⟨_, hwritten.reaches hs₂, Or.inr (Or.inr ⟨haccepted, rfl⟩),
            fun hrel ↦ (hunreliable hrel).elim⟩

/-! ## Deleting a stanza -/

/-- What the body of a response says of a stanza: stars may stand in the place of its secret. -/
def Lists (f : String) (known : Known) (entry : Entry) : Prop :=
  ∃ fields, known entry.1 = some fields ∧ (∀ key, key ≠ f → Dict.get entry.2 key = fields key) ∧
    ∀ v, incoming (Dict.get entry.2 f) = some v → fields f = some v

/-- A stanza without its secret. -/
def Flayed (f : String) (known : Known) (entry : Entry) : Prop :=
  ∃ fields, known entry.1 = some fields ∧ Dict.get entry.2 = Function.update fields f none

theorem needDecrypt_eq (hone : OneSecret handler f) :
    handler.needDecrypt data false = (incoming (Dict.get data f)).isSome := by
  rw [needDecrypt, hone.names, List.any_cons, List.any_nil, Bool.or_false, Bool.false_and,
    Bool.or_false, incoming]
  cases hvalue : nonemptyStr? (Dict.get data f) with
  | none => rfl
  | some v =>
    rw [Option.filter_some]
    by_cases hmask : v = mask
    · rw [hmask]
      decide
    · rw [if_pos (decide_eq_true hmask)]
      exact decide_eq_true hmask

theorem Lists.flayed (hone : OneSecret handler f) (h : Lists f known (name, content))
    (hdata : ∀ key, key ≠ f → Dict.get data key = Dict.get content key) :
    Flayed f known (name, handler.cleanCredentials data) := by
  obtain ⟨fields, hknown, hfields, -⟩ := h
  refine ⟨fields, hknown, funext fun key ↦ ?_⟩
  rw [cleanCredentials, hone.names, List.foldl_cons, List.foldl_nil, get_del_apply,
    Function.update_apply]
  refine ite_congr rfl (fun _ ↦ rfl) fun hkey ↦ ?_
  rw [hdata key hkey]
  exact hfields key hkey

/-- `_load_credentials`, of a stanza with a secret in the response. -/
theorem Represents.ends_loadCredentials (hone : OneSecret handler f)
    (h : handler.Represents f s known) (hlists : Lists f known (name, data)) {v : String}
    (hin : incoming (Dict.get data f) = some v) :
    Ends (handler.loadCredentials answers name data) s fun r s' ↦ handler.Reaches f s s' known ∧
      match r with
      | .ok loaded => ∀ key, key ≠ f → Dict.get loaded key = Dict.get data key
      | .error _ => ¬answers.Reliable := by
  obtain ⟨secrets, hs, rfl⟩ := h
  obtain ⟨fields, hknown, -, hsecret⟩ := hlists
  obtain ⟨content, hcontent, rfl⟩ := Option.map_eq_some_iff.mp hknown
  have hc : current f secrets (name, content) = some v := by
    rw [← hsecret v hin, reveal, if_pos rfl]
    rfl
  obtain ⟨hvalue, hmask⟩ := Option.filter_eq_some_iff.mp hin
  obtain ⟨hdata, hempty⟩ := nonemptyStr?_eq_some_iff.mp hvalue
  rw [loadCredentials, ends_bind, ends_withPasswords]
  refine (hs.holds.ends_decrypt hone.names (hs.kept_of_get hcontent).1 hdata hempty
    (of_decide_eq_true hmask)).mono ?_
  rintro _ after ⟨rfl, hafter⟩
  obtain ⟨hmiddle, hview, hcurrent⟩ := hs.store hcontent hc hafter
  dsimp only
  rw [if_pos (List.cons_ne_nil _ _), ends_bind]
  refine (hmiddle.ends_hide hcontent hcurrent).mono ?_
  rintro r last ⟨hstarred, hr⟩
  have hlast : handler.Reaches f s last (view f s secrets) :=
    ⟨⟨_, hstarred.consistent, hstarred.view_eq.trans hview⟩, hstarred.written⟩
  cases r with
  | ok _ =>
    refine ⟨hlast, fun key hkey ↦ ?_⟩
    rw [get_setKey, if_neg hkey, get_setKey, if_neg hkey]
  | error e => exact ⟨hlast, fun hrel ↦ hr (hrel.mask name)⟩

theorem Represents.ends_flayEntry (hone : OneSecret handler f) (h : handler.Represents f s known)
    (hlists : Lists f known (name, data)) :
    Ends (handler.flayEntry answers name data) s fun r s' ↦ handler.Reaches f s s' known ∧
      match r with
      | .ok entry => Flayed f known entry
      | .error _ => ¬answers.Reliable := by
  rw [flayEntry, needDecrypt_eq hone]
  cases hin : incoming (Dict.get data f) with
  | none =>
    rw [if_neg (Option.not_isSome_iff_eq_none.mpr rfl)]
    exact ⟨h.reaches_self, hlists.flayed hone fun _ _ ↦ rfl⟩
  | some v =>
    rw [if_pos Option.isSome_some, ends_bind]
    refine (h.ends_loadCredentials hone hlists hin).mono ?_
    rintro r s' ⟨hs', hr⟩
    cases r with
    | ok loaded => exact ⟨hs', hlists.flayed hone hr⟩
    | error e => exact ⟨hs', hr⟩

theorem Represents.ends_flayResponse (hone : OneSecret handler f)
    (h : handler.Represents f s known) {entries : List Entry}
    (hentries : ∀ entry ∈ entries, Lists f known entry) :
    Ends (handler.flayResponse answers entries) s fun r s' ↦ handler.Reaches f s s' known ∧
      match r with
      | .ok flayed => ∀ entry ∈ flayed, Flayed f known entry
      | .error _ => ¬answers.Reliable := by
  induction entries generalizing s with
  | nil => exact ⟨h.reaches_self, fun entry hmem ↦ absurd hmem List.not_mem_nil⟩
  | cons entry entries ih =>
    obtain ⟨name, data⟩ := entry
    rw [List.forall_mem_cons] at hentries
    obtain ⟨hlists, hrest⟩ := hentries
    rw [flayResponse, ends_bind]
    refine (h.ends_flayEntry hone hlists).mono ?_
    rintro r middle ⟨hmiddle, hr⟩
    cases r with
    | error e => exact ⟨hmiddle, hr⟩
    | ok entry =>
      dsimp only
      rw [ends_bind]
      refine (ih hmiddle.represents hrest).mono ?_
      rintro r last ⟨hlast, hr'⟩
      have hlast := hmiddle.written.reaches hlast
      cases r with
      | error e => exact ⟨hlast, hr'⟩
      | ok flayed => exact ⟨hlast, List.forall_mem_cons.mpr ⟨hr, hr'⟩⟩

theorem Consistent.erase (h : handler.Consistent f s secrets) (name : String) :
    handler.Consistent f { s with conf := Dict.del s.conf name } secrets where
  holds := h.holds
  nodup := h.nodup.sublist (List.filter_sublist.map _)
  kept entry hmem := h.kept entry (List.mem_of_mem_filter hmem)
  unmasked entry hmem := h.unmasked entry (List.mem_of_mem_filter hmem)

theorem view_erase : view f { s with conf := Dict.del s.conf name } secrets =
    Function.update (view f s secrets) name none := by
  funext other
  rw [view, get_del_apply, Function.update_apply]
  split_ifs with hother
  · rfl
  · rw [view]

theorem written_erase : Written f s { s with conf := Dict.del s.conf name } := by
  intro other content hcontent
  rw [get_del_apply] at hcontent
  split_ifs at hcontent
  exact Or.inl hcontent

theorem Consistent.ends_deleteAndFlay (hone : OneSecret handler f)
    (h : handler.Consistent f s secrets) (hname : PlainName name)
    (hgone : Dict.get s.conf name = none) :
    Ends (do
      if handler.credentials.encryptedFieldNames ≠ [] then
        withPasswords (handler.credentials.delete name)
      attempt answers.body
      handler.flayResponse answers ((← get).conf.filter fun p ↦ answers.shown p.1)) s
        fun r s' ↦ handler.Reaches f s s' (view f s secrets) ∧
          match r with
          | .ok flayed => ∀ entry ∈ flayed, Flayed f (view f s secrets) entry
          | .error _ => ¬answers.Reliable := by
  have hnames : handler.credentials.encryptedFieldNames ≠ [] := hone.names ▸ List.cons_ne_nil f []
  rw [if_pos hnames, ends_bind, ends_withPasswords]
  refine (h.holds.ends_delete hname).mono ?_
  rintro _ after ⟨rfl, hafter⟩
  have hview : view f { s with passwords := after } (Function.update secrets name none) =
      view f s secrets :=
    view_update_of_incoming fun content hcontent ↦
      absurd (hcontent.symm.trans hgone) (Option.some_ne_none content)
  have hmiddle : handler.Consistent f { s with passwords := after }
      (Function.update secrets name none) := by
    refine h.passwords hafter fun other hthere hother ↦ ?_
    have hne : other ≠ name := by
      rintro rfl
      exact hthere hgone
    rwa [Function.update_of_ne hne]
  have hwritten : Written f s { s with passwords := after } := written_self f s
  have hrepresents : handler.Represents f { s with passwords := after } (view f s secrets) :=
    ⟨_, hmiddle, hview⟩
  dsimp only
  rw [ends_bind, ends_attempt]
  cases hbody : answers.body with
  | some e =>
    exact ⟨hwritten.reaches hrepresents.reaches_self, fun hrel ↦
      absurd (hbody.symm.trans hrel.body) (Option.some_ne_none e)⟩
  | none =>
    dsimp only
    rw [ends_get_bind]
    refine (hrepresents.ends_flayResponse hone fun entry hmem ↦ ?_).mono fun r s' hr ↦
      ⟨hwritten.reaches hr.1, hr.2⟩
    have hcontent := h.mem_iff.mp (List.mem_of_mem_filter hmem)
    refine ⟨reveal f (secrets entry.1) entry.2, ?_, fun key hkey ↦ ?_, fun v hin ↦ ?_⟩
    · rw [view, hcontent, Option.map_some]
    · rw [reveal, if_neg hkey]
    · rw [reveal, if_pos rfl, hin, Option.some_or]

/-- **`delete`.** A stanza is deleted, with its secret. -/
theorem Represents.ends_delete (hone : OneSecret handler f) (h : handler.Represents f s known) :
    Ends (handler.delete answers name) s fun r s' ↦ ∃ after, handler.Reaches f s s' after ∧
      Attempted answers (known name = none) known known (Function.update known name none)
        (fun entries ↦ ∀ entry ∈ entries, Flayed f after entry) r after := by
  have hself := h.reaches_self
  obtain ⟨secrets, hs, rfl⟩ := h
  rw [delete, ends_decodeResponse, ends_bind, deleteStanza, ends_get_bind]
  cases hcontent : Dict.get s.conf name with
  | none =>
    have hknown : view f s secrets name = none := by rw [view, hcontent, Option.map_none]
    exact ⟨_, hself, Or.inl rfl, fun _ ↦ ⟨hknown, rfl⟩⟩
  | some content =>
    have hknown : view f s secrets name ≠ none := by
      rw [view, hcontent]
      exact Option.some_ne_none _
    have herased := hs.erase name
    dsimp only
    rw [ends_remotely]
    cases hfault : answers.remove.fault with
    | some e =>
      have hunreliable (hrel : answers.Reliable) : False :=
        absurd (hfault.symm.trans hrel.remove) (Option.some_ne_none e)
      dsimp only
      split_ifs
      · exact ⟨_, ⟨⟨_, herased, view_erase⟩, written_erase⟩, Or.inr (Or.inr ⟨hknown, rfl⟩),
          fun hrel ↦ (hunreliable hrel).elim⟩
      · exact ⟨_, hself, Or.inl rfl, fun hrel ↦ (hunreliable hrel).elim⟩
    | none =>
      have hgone : Dict.get (Dict.del s.conf name) name = none := by
        rw [get_del_apply, if_pos rfl]
      refine (herased.ends_deleteAndFlay hone (hs.kept_of_get hcontent).1 hgone).mono ?_
      rintro r s' ⟨hs', hr⟩
      rw [view_erase] at hs' hr
      have hs' := written_erase.reaches hs'
      cases r with
      | ok entries => exact ⟨_, hs', hknown, rfl, hr⟩
      | error e => exact ⟨_, hs', Or.inr (Or.inr ⟨hknown, rfl⟩), fun hrel ↦ absurd hrel hr⟩

theorem Represents.ends_handleRemove (hone : OneSecret handler f)
    (h : handler.Represents f s known) {listing : Except PyError Json} :
    Ends (handler.handleRemove answers listing name) s fun r s' ↦
      ∃ after, handler.Reaches f s s' after ∧
        Attempted answers (AccountRemoval.checkUnused listing name ≠ .ok () ∨ known name = none)
          known known (Function.update known name none)
          (fun entries ↦ ∀ entry ∈ entries, Flayed f after entry) r after := by
  rw [handleRemove, ends_bind, ends_liftExcept]
  cases hcheck : AccountRemoval.checkUnused listing name with
  | error e => exact ⟨known, h.reaches_self, Or.inl rfl, fun _ ↦ ⟨Or.inl error_ne_ok, rfl⟩⟩
  | ok _ =>
    refine (h.ends_delete hone).mono ?_
    rintro r s' ⟨after, hafter, hr⟩
    refine ⟨after, hafter, ?_⟩
    have hrefused : known name = none ↔
        (Except.ok () : Except PyError Unit) ≠ .ok () ∨ known name = none :=
      (or_iff_right fun hne ↦ hne rfl).symm
    cases r with
    | ok entries =>
      rw [Attempted, hrefused] at hr
      exact hr
    | error e =>
      rw [Attempted, hrefused] at hr
      exact hr

end RestHandler

end MsSecurity
