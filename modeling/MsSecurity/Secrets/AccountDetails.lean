import MsSecurity.Secrets.PageRequests

/-!
# The account page and its readers

The page keeps the accounts, and `get_account_details` reads them: a stanza of the file, with what
is stored of it in the place of stars. The two sides find each other's secrets by the realm, which
each of them writes out for itself.
-/

namespace MsSecurity

open InputStanza (Fields)
open RestCredentials
open CredentialManager (readResult)

/-! ## The page -/

/-- `ACCOUNT_CONF_NAME`. -/
def accountConfName : String := "splunk_ta_ms_security_account"

/-- `SingleModel.internal_endpoint`. -/
def internalEndpoint (confName : String) : String := "configs/conf-" ++ confName

/-- `RestCredentialsContext.realm`. -/
def restRealm (baseApp endpoint : String) : String :=
  "__REST_CREDENTIAL__#" ++ baseApp ++ "#" ++ endpoint

/-- The realm in `get_account_details`. -/
def detailsRealm : String :=
  "__REST_CREDENTIAL__#" ++ appName ++ "#configs/conf-" ++ accountConfName

theorem restRealm_account :
    restRealm appName (internalEndpoint accountConfName) = detailsRealm := by
  decide +kernel

/-- The managers of the page and of `get_account_details`. -/
structure AccountManagers where
  page : CredentialManager
  details : CredentialManager
  page_realm : page.realm = restRealm appName (internalEndpoint accountConfName)
  details_realm : details.realm = detailsRealm

theorem AccountManagers.realm_eq (managers : AccountManagers) :
    managers.details.realm = managers.page.realm := by
  rw [managers.details_realm, managers.page_realm, restRealm_account]

/-- The fields of the page. -/
def accountFields : List PageField :=
  [⟨"username", true, false, some (stringValidator 1 200)⟩,
    ⟨"password", true, true, some (stringValidator 1 8192)⟩,
    ⟨"tenant_id", true, false, some (stringValidator 1 200)⟩,
    ⟨"use_delegated_permissions", false, false, none⟩,
    ⟨"delegated_acc_name", false, false, none⟩]

/-- The handler of the page. -/
def AccountManagers.handler (managers : AccountManagers) : RestHandler :=
  ⟨managers.page, accountFields⟩

theorem AccountManagers.oneSecret (managers : AccountManagers) :
    OneSecret managers.handler "password" where
  names := rfl
  required := ⟨_, List.mem_cons_of_mem _ List.mem_cons_self, rfl, rfl⟩
  ne_name := by decide

/-! ## Reading -/

/-- The loop of `_decrypt_stanza` over the keys with stars. -/
def fillIn (encryptedFields : Dict String) : Fields → List String → Except PyError Fields
  | stanza, [] => .ok stanza
  | stanza, key :: rest => do
    let value ← Dict.getItem encryptedFields key
    fillIn encryptedFields (setKey stanza key value) rest

/-- `_decrypt_stanza`. -/
def decryptStanza (manager : CredentialManager) (name : String) (stanza : Fields) :
    EStateM PyError Passwords Fields := do
  let encryptedKeys := (stanza.map Prod.fst).filter fun key ↦ Dict.get stanza key = some mask
  if encryptedKeys ≠ [] then
    let password ← manager.getPassword name
    match JsonText.loads password with
    | some encryptedFields => liftExcept (fillIn encryptedFields stanza encryptedKeys)
    | none => throw (.valueError "")
  else return stanza

/-- `ConfStanzaNotExistException`. -/
def confStanzaNotExist : PyError := .other "ConfStanzaNotExistException"

/-- `ConfFile.get`, where `fault` is what the request raises after the retries. -/
def confGet (manager : CredentialManager) (fault : Option PyError) (name : String) :
    EStateM PyError ConfServer Fields := do
  tryCatch (attempt fault) fun e ↦ throw (if e = .httpError 404 then confStanzaNotExist else e)
  match Dict.get (← get).conf name with
  | none => throw confStanzaNotExist
  | some stanza => withPasswords (decryptStanza manager name stanza)

/-- How the requests of `get_account_details` end, those for a setting by its name. -/
structure DetailsAnswers where
  conf : Option PyError
  read : String → Option PyError

/-- `account_conf_file.get(account_name).get(key)`. -/
def readSetting (manager : CredentialManager) (answers : DetailsAnswers) (name key : String) :
    EStateM PyError ConfServer (Option String) := do
  return Dict.get (← confGet manager (answers.read key) name) key

/-- The body of the `try`: the stanza is read for each setting. -/
def readSettings (manager : CredentialManager) (answers : DetailsAnswers) (name : String) :
    EStateM PyError ConfServer Account := do
  attempt answers.conf
  let username ← readSetting manager answers name "username"
  let password ← readSetting manager answers name "password"
  let tenantId ← readSetting manager answers name "tenant_id"
  let useDelegatedPermissions ← readSetting manager answers name "use_delegated_permissions"
  let delegatedAccName ← readSetting manager answers name "delegated_acc_name"
  return ⟨username, password, tenantId, useDelegatedPermissions = some "1", delegatedAccName⟩

/-- `get_account_details`. -/
def fetchAccount (manager : CredentialManager) (answers : DetailsAnswers) (name : String) :
    EStateM PyError ConfServer Account :=
  exceptException (readSettings manager answers name) (throw (.systemExit 1))

/-- The account that the fields of a stanza make up. -/
def accountOf (fields : String → Option String) : Account :=
  ⟨fields "username", fields "password", fields "tenant_id",
    fields "use_delegated_permissions" = some "1", fields "delegated_acc_name"⟩

/-- Nothing goes wrong on the way. -/
def DetailsAnswers.Reliable (answers : DetailsAnswers) : Prop :=
  answers.conf = none ∧ ∀ key, answers.read key = none

/-! ## What is read -/

section Realm

variable {manager manager' : CredentialManager} {credentials credentials' : RestCredentials}
  {passwords : Passwords}

theorem CredentialManager.Tidy.of_realm (hrealm : manager'.realm = manager.realm)
    (h : manager.Tidy passwords) : manager'.Tidy passwords :=
  ⟨h.nodup, fun hmem ↦ h.shape (hrealm ▸ hmem)⟩

theorem CredentialManager.clearOf_congr (hrealm : manager'.realm = manager.realm)
    (passwords : Passwords) : manager'.clearOf passwords = manager.clearOf passwords := by
  funext user
  rw [clearOf, clearOf, inRealm, inRealm, stanzaName, stanzaName, hrealm]

theorem RestCredentials.Holds.of_realm
    (hrealm : credentials'.manager.realm = credentials.manager.realm) {f : String}
    {secrets : String → Option String} (h : credentials.Holds f passwords secrets) :
    credentials'.Holds f passwords secrets where
  tidy := h.tidy.of_realm hrealm
  clear hname := by rw [CredentialManager.clearOf_congr hrealm, h.clear hname]
  nonempty := h.nonempty

end Realm

theorem fillIn_single {f v : String} {keys : List String} (hkeys : ∀ key ∈ keys, key = f)
    (stanza : Fields) : ∃ filled, fillIn [(f, v)] stanza keys = .ok filled ∧
      ∀ key, Dict.get filled key =
        if keys ≠ [] ∧ key = f then some v else Dict.get stanza key := by
  induction keys generalizing stanza with
  | nil => exact ⟨stanza, rfl, fun key ↦ (if_neg fun h ↦ h.1 rfl).symm⟩
  | cons key keys ih =>
    rw [List.forall_mem_cons] at hkeys
    obtain ⟨rfl, hrest⟩ := hkeys
    obtain ⟨filled, heq, hget⟩ := ih hrest (setKey stanza key v)
    refine ⟨filled, ?_, fun other ↦ ?_⟩
    · have hitem : Dict.getItem [(key, v)] key = .ok v := by
        rw [Dict.getItem, Dict.get, List.lookup_cons_self]
      rw [fillIn, hitem]
      exact heq
    · rw [hget, get_setKey]
      by_cases hother : other = key
      · rw [if_pos hother, ite_self, if_pos ⟨List.cons_ne_nil _ _, hother⟩]
      · rw [if_neg fun h ↦ hother h.2, if_neg hother, if_neg fun h ↦ hother h.2]

namespace RestHandler

variable {handler : RestHandler} {f : String} {s : ConfServer} {known : Known}
  {secrets : String → Option String} {name : String} {content : Fields}
  {reader : CredentialManager}

theorem Consistent.ends_decryptStanza (h : handler.Consistent f s secrets)
    (hrealm : reader.realm = handler.manager.realm)
    (hcontent : Dict.get s.conf name = some content) :
    Ends (decryptStanza reader name content) s.passwords fun r passwords ↦
      passwords = s.passwords ∧ ∃ stanza, .ok stanza = r ∧
        Dict.get stanza = reveal f (secrets name) content := by
  obtain ⟨hname, v, hv, hempty, hstored⟩ := h.kept_of_get hcontent
  set keys := (content.map Prod.fst).filter fun key ↦ Dict.get content key = some mask with hkeys
  have hmem {key : String} : key ∈ keys ↔ Dict.get content key = some mask := by
    rw [hkeys, List.mem_filter, decide_eq_true_iff]
    refine and_iff_right_of_imp fun hget ↦ ?_
    exact lookup_eq_none_iff_notMem.not_left.mp fun hnone ↦
      Option.some_ne_none mask (hget.symm.trans hnone)
  have honly : ∀ key ∈ keys, key = f := fun key hkey ↦
    not_not.mp fun hne ↦ h.unmasked _ (h.mem_iff.mpr hcontent) key hne (hmem.mp hkey)
  rw [decryptStanza, ← hkeys]
  by_cases hmask : v = mask
  · have hstars : f ∈ keys := hmem.mpr (hmask ▸ hv)
    obtain ⟨c, hc⟩ := Option.ne_none_iff_exists'.mp (hstored hmask)
    have hholds : RestCredentials.Holds ⟨reader, []⟩ f s.passwords secrets :=
      h.holds.of_realm hrealm
    obtain ⟨filled, hfilled, hget⟩ := fillIn_single (v := c) honly content
    rw [if_pos (List.ne_nil_of_mem hstars), ends_bind, hholds.tidy.ends_getPassword hname,
      hholds.clear hname, hc, Option.map_some, readResult]
    dsimp only
    rw [loads_single]
    dsimp only
    rw [ends_liftExcept, hfilled]
    refine ⟨rfl, filled, rfl, funext fun key ↦ ?_⟩
    rw [hget, reveal, hv, hmask, incoming_mask, Option.none_or]
    exact if_congr (and_iff_right (List.ne_nil_of_mem hstars)) rfl rfl
  · have hnil : keys = [] := List.eq_nil_iff_forall_not_mem.mpr fun key hkey ↦ by
      obtain rfl := honly key hkey
      exact hmask (Option.some.inj (hv.symm.trans (hmem.mp hkey)))
    rw [if_neg (not_not.mpr hnil)]
    refine ⟨rfl, content, rfl, funext fun key ↦ ?_⟩
    rw [reveal]
    split_ifs with hkey
    · rw [hkey, hv, incoming_of_ne hempty hmask, Option.some_or]
    · rfl

/-- `ConfFile.get`: the stanza as it is represented. -/
theorem Represents.ends_confGet (h : handler.Represents f s known)
    (hrealm : reader.realm = handler.manager.realm) {fault : Option PyError} :
    Ends (confGet reader fault name) s fun r s' ↦ s' = s ∧
      match r with
      | .ok stanza => known name = some (Dict.get stanza)
      | .error _ => fault = none → known name = none := by
  obtain ⟨secrets, hs, rfl⟩ := h
  rw [confGet, ends_bind, ends_tryCatch, ends_attempt]
  cases fault with
  | some e => exact ⟨rfl, fun h ↦ absurd h (Option.some_ne_none e)⟩
  | none =>
    dsimp only
    rw [ends_get_bind]
    cases hcontent : Dict.get s.conf name with
    | none =>
      refine ⟨rfl, fun _ ↦ ?_⟩
      rw [view, hcontent, Option.map_none]
    | some content =>
      dsimp only
      rw [ends_withPasswords]
      refine (hs.ends_decryptStanza hrealm hcontent).mono ?_
      rintro _ _ ⟨rfl, stanza, rfl, hstanza⟩
      refine ⟨rfl, ?_⟩
      dsimp only
      rw [hstanza, view, hcontent, Option.map_some]

theorem Represents.ends_readSetting (h : handler.Represents f s known)
    (hrealm : reader.realm = handler.manager.realm) {answers : DetailsAnswers} {key : String} :
    Ends (readSetting reader answers name key) s fun r s' ↦ s' = s ∧
      match r with
      | .ok setting => ∃ fields, known name = some fields ∧ setting = fields key
      | .error _ => answers.read key = none → known name = none := by
  rw [readSetting, ends_bind]
  refine (h.ends_confGet hrealm).mono ?_
  rintro r s' ⟨rfl, hr⟩
  cases r with
  | ok stanza => exact ⟨rfl, _, hr, rfl⟩
  | error e => exact ⟨rfl, hr⟩

theorem Represents.ends_readSetting_bind {α : Type} (h : handler.Represents f s known)
    (hrealm : reader.realm = handler.manager.realm) {answers : DetailsAnswers} {key : String}
    {g : Option String → EStateM PyError ConfServer α} {Q : Except PyError α → ConfServer → Prop}
    (hok : ∀ fields, known name = some fields → Ends (g (fields key)) s Q)
    (herror : ∀ e, (answers.read key = none → known name = none) → Q (.error e) s) :
    Ends (readSetting reader answers name key >>= g) s Q := by
  rw [ends_bind]
  refine (h.ends_readSetting hrealm).mono ?_
  rintro r s' ⟨rfl, hr⟩
  cases r with
  | ok setting =>
    obtain ⟨fields, hknown, rfl⟩ := hr
    exact hok fields hknown
  | error e => exact herror e hr

theorem Represents.ends_readSettings (h : handler.Represents f s known)
    (hrealm : reader.realm = handler.manager.realm) {answers : DetailsAnswers} :
    Ends (readSettings reader answers name) s fun r s' ↦ s' = s ∧
      match r with
      | .ok account => ∃ fields, known name = some fields ∧ account = accountOf fields
      | .error _ => answers.Reliable → known name = none := by
  set Q : Except PyError Account → ConfServer → Prop := fun r s' ↦ s' = s ∧
    match r with
    | .ok account => ∃ fields, known name = some fields ∧ account = accountOf fields
    | .error _ => answers.Reliable → known name = none
  rw [readSettings, ends_bind, ends_attempt]
  cases hconf : answers.conf with
  | some e =>
    exact ⟨rfl, fun hrel ↦ absurd (hconf.symm.trans hrel.1) (Option.some_ne_none e)⟩
  | none =>
    have hread (key : String) (g : Option String → EStateM PyError ConfServer Account)
        (hok : ∀ fields, known name = some fields → Ends (g (fields key)) s Q) :
        Ends (readSetting reader answers name key >>= g) s Q :=
      h.ends_readSetting_bind hrealm hok fun e herror ↦ ⟨rfl, fun hrel ↦ herror (hrel.2 key)⟩
    cases hknown : known name with
    | none =>
      exact hread _ _ fun fields hfields ↦
        absurd (hknown.symm.trans hfields) (Option.some_ne_none fields).symm
    | some fields =>
      have hread (key : String) (g : Option String → EStateM PyError ConfServer Account)
          (hok : Ends (g (fields key)) s Q) :
          Ends (readSetting reader answers name key >>= g) s Q := by
        refine hread key g fun fields' hfields ↦ ?_
        rwa [← Option.some.inj (hknown.symm.trans hfields)]
      refine hread _ _ (hread _ _ (hread _ _ (hread _ _ (hread _ _ ?_))))
      exact ⟨rfl, fields, hknown, rfl⟩

/-- **`get_account_details`.** It returns the account as it is represented. -/
theorem Represents.ends_fetchAccount (h : handler.Represents f s known)
    (hrealm : reader.realm = handler.manager.realm) {answers : DetailsAnswers} :
    Ends (fetchAccount reader answers name) s fun r s' ↦ s' = s ∧
      match r with
      | .ok account => ∃ fields, known name = some fields ∧ account = accountOf fields
      | .error _ => answers.Reliable → known name = none := by
  rw [fetchAccount, ends_exceptException]
  refine (h.ends_readSettings hrealm).mono ?_
  rintro r s' ⟨rfl, hr⟩
  cases r with
  | ok account => exact ⟨rfl, hr⟩
  | error e => exact ⟨fun _ ↦ ⟨rfl, hr⟩, fun _ ↦ ⟨rfl, hr⟩⟩

theorem Represents.getAccountDetails_eq (h : handler.Represents f s known)
    (hrealm : reader.realm = handler.manager.realm) {answers : DetailsAnswers} {conf : AccountConf}
    (hconf : (Dict.get conf name).map Dict.get = known name) :
    Ends (fetchAccount reader answers name) s fun r _ ↦
      ∀ account, r = .ok account → getAccountDetails (.ok conf) name = .ok account := by
  refine (h.ends_fetchAccount hrealm).mono ?_
  rintro _ s' ⟨-, hr⟩ account rfl
  obtain ⟨fields, hknown, rfl⟩ := hr
  obtain ⟨stanza, hstanza, rfl⟩ := Option.map_eq_some_iff.mp (hconf.trans hknown)
  exact getAccountDetails_eq_ok_iff.mpr ⟨conf, stanza, rfl, hstanza, rfl⟩

end RestHandler

end MsSecurity
