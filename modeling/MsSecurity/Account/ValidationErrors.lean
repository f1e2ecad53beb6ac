import MsSecurity.Account.Login
import MsSecurity.Rest.Stanza

/-!
# What leaves the validation of an account

`account_validation` turns a `TaExecutionException` into a `RestError`, which the REST handlers show
to the user. The code it calls has two more ways to fail: `required` raises a `ValueError`, which
nothing translates, and `get_proxy` ends the process where the proxy settings cannot be read, which
no `except Exception` stops.

## Main results

* `AccountValidation.translatable_validate_iff`: what may leave `validate` is translated exactly
  when the account is unknown, or its URLs resolve and the proxy settings, if they are needed, can
  be read.
* `AccountValidation.onlyRestErrors_iff`: when nothing but a `RestError` leaves
  `account_validation`.
-/

namespace MsSecurity

namespace AccountValidation

/-! ## The function -/

/-- What a validation gets from outside. -/
structure ValidationServices extends LoginServices where
  /-- `use_log_level_from_config`. -/
  useLogLevel : Except PyError Unit
  /-- `str` of an exception. -/
  text : PyError → String

variable (services : ValidationServices) (payload : Payload) (sessionKey : Option String)

/-- `AccountValidator(payload, session_key)`. -/
def create : Except PyError AccountValidator := do
  let _sessionKey ← required nonemptyStr? sessionKey requiredDefaultMsg "session_key"
  services.useLogLevel
  AccountValidator.init payload

/-- `except TaExecutionException as e: raise RestError(400, str(e))`. -/
def restErrorOf (text : PyError → String) : PyError → PyError
  | .taExecution msg _ => .restError 400 msg
  | .taExecutionFrom e _ => .restError 400 (text e)
  | e => e

/-- `account_validation`. -/
def accountValidation : Except PyError Unit :=
  Except.mapError (restErrorOf services.text) do
    let v ← create services payload sessionKey
    v.validate services.toLoginServices

/-! ## Exceptions that are translated -/

/-- The exceptions that leave `account_validation` as a `RestError`. -/
def Translated : PyError → Prop
  | .restError _ _ => True
  | .taExecution _ _ => True
  | .taExecutionFrom _ _ => True
  | _ => False

/-- What the computation raises is translated. -/
def Translatable {α : Type} (x : Except PyError α) : Prop := ∀ e, x = .error e → Translated e

/-- The computation returns or raises a `RestError`. -/
def OnlyRestErrors {α : Type} (x : Except PyError α) : Prop :=
  ∀ e, x = .error e → ∃ status msg, e = .restError status msg

section Translatable

variable {α β : Type} {x : Except PyError α}

theorem translatable_ok (a : α) : Translatable (.ok a) := fun _ h ↦ nomatch h

theorem translatable_error_iff {e : PyError} :
    Translatable (.error e : Except PyError α) ↔ Translated e := by
  refine ⟨fun h ↦ h e rfl, ?_⟩
  rintro h _ ⟨⟩
  exact h

theorem translatable_bind_iff {f : α → Except PyError β} :
    Translatable (x >>= f) ↔ Translatable x ∧ ∀ a, x = .ok a → Translatable (f a) := by
  cases x with
  | ok a =>
    refine ⟨fun h ↦ ⟨translatable_ok a, ?_⟩, fun h ↦ h.2 a rfl⟩
    rintro _ ⟨⟩
    exact h
  | error e => exact ⟨fun h ↦ ⟨translatable_error_iff.mpr (h e rfl), nofun⟩,
      fun h ↦ translatable_error_iff.mpr (h.1 e rfl)⟩

theorem onlyRestErrors_mapError_iff {text : PyError → String} :
    OnlyRestErrors (x.mapError (restErrorOf text)) ↔ Translatable x := by
  cases x with
  | ok a => exact iff_of_true (fun _ h ↦ nomatch h) (translatable_ok a)
  | error e =>
    have hrest : (∃ status msg, restErrorOf text e = .restError status msg) ↔ Translated e := by
      cases e <;> simp [restErrorOf, Translated]
    rw [translatable_error_iff, ← hrest]
    refine ⟨fun h ↦ h _ rfl, ?_⟩
    rintro h _ ⟨⟩
    exact h

/-- A handler for every `Exception` translates what it raises instead. -/
theorem translatable_raiseInstead {h : PyError → PyError} (hh : ∀ e, Translated (h e))
    (hx : RaisesException x) : Translatable (raiseInstead h x) := by
  cases x with
  | ok a => exact translatable_ok a
  | error e =>
    rw [raiseInstead, Except.mapError, if_pos (hx e rfl), translatable_error_iff]
    exact hh e

theorem raiseInstead_raisesException {h : PyError → PyError}
    (hh : ∀ e, (h e).isException = true) (hx : RaisesException x) :
    RaisesException (raiseInstead h x) := by
  cases x with
  | ok a => exact raisesException_ok a
  | error e =>
    rw [raiseInstead, Except.mapError, if_pos (hx e rfl)]
    exact raisesException_error (hh e)

/-- What the computation raises is not translated. -/
def Untranslated (x : Except PyError α) : Prop := ∀ e, x = .error e → ¬Translated e

theorem untranslated_ok (a : α) : Untranslated (.ok a) := fun _ h ↦ nomatch h

theorem untranslated_error {e : PyError} (h : ¬Translated e) :
    Untranslated (.error e : Except PyError α) := by
  rintro _ ⟨⟩
  exact h

theorem Untranslated.bind {f : α → Except PyError β} (hx : Untranslated x)
    (hf : ∀ a, Untranslated (f a)) : Untranslated (x >>= f) := by
  cases x with
  | ok a => exact hf a
  | error e => exact untranslated_error (hx e rfl)

theorem untranslated_required {γ : Type} {value? : γ → Option β} {obj : γ}
    {errorMsg name : String} : Untranslated (required value? obj errorMsg name) := by
  rw [required]
  split
  · exact untranslated_ok _
  · exact untranslated_error id

theorem Untranslated.translatable_iff (h : Untranslated x) :
    Translatable x ↔ ∃ a, x = .ok a := by
  cases x with
  | ok a => exact iff_of_true (translatable_ok a) ⟨a, rfl⟩
  | error e =>
    refine iff_of_false (fun htranslated ↦ h e rfl (translatable_error_iff.mp htranslated)) ?_
    rintro ⟨a, ⟨⟩⟩

end Translatable

/-! ## Before the validation -/

section Create

variable {services payload sessionKey}

theorem untranslated_init : Untranslated (AccountValidator.init payload) := by
  rw [AccountValidator.init]
  split
  · exact untranslated_error id
  · exact untranslated_required.bind fun _ ↦ untranslated_ok _

theorem init_eq_ok_iff {v : AccountValidator} : AccountValidator.init payload = .ok v ↔
    ¬(truthyStr payload.environment ∧ truthyStr payload.location) ∧
      ∃ account, nonemptyStr? payload.azureAppAccount = some account ∧
        v = ⟨account, payload.tenantId, payload.environment, payload.location⟩ := by
  rw [AccountValidator.init]
  by_cases hboth : truthyStr payload.environment ∧ truthyStr payload.location
  · rw [if_pos hboth]
    refine iff_of_false ?_ fun h ↦ h.1 hboth
    rintro ⟨⟩
  · rw [if_neg hboth, bind_eq_ok_iff]
    constructor
    · rintro ⟨account, haccount, ⟨⟩⟩
      exact ⟨hboth, account, required_eq_ok_iff.mp haccount, rfl⟩
    · rintro ⟨-, account, haccount, rfl⟩
      exact ⟨account, required_eq_ok_iff.mpr haccount, rfl⟩

theorem create_eq_ok_iff {v : AccountValidator} : create services payload sessionKey = .ok v ↔
    truthyStr sessionKey = true ∧ services.useLogLevel = .ok () ∧
      AccountValidator.init payload = .ok v := by
  rw [create, bind_eq_ok_iff, truthyStr_eq_isSome]
  simp only [required_eq_ok_iff, bind_eq_ok_iff, Option.isSome_iff_exists]
  constructor
  · rintro ⟨key, hkey, ⟨⟩, hlog, hinit⟩
    exact ⟨⟨key, hkey⟩, hlog, hinit⟩
  · rintro ⟨⟨key, hkey⟩, hlog, hinit⟩
    exact ⟨key, hkey, (), hlog, hinit⟩

theorem untranslated_create (h : Untranslated services.useLogLevel) :
    Untranslated (create services payload sessionKey) :=
  untranslated_required.bind fun _ ↦ h.bind fun _ ↦ untranslated_init

end Create

/-! ## Resolving the account and its URLs -/

/-- The entry of the tables that is looked up. -/
def urlsEntry (v : AccountValidator) : Option ApiUrls :=
  if truthyStr v.environment then v.environment.bind urlsByEnvironment.get
  else v.location.bind urlsByLocation.get

section Resolve

variable {v : AccountValidator} {accountConf : Except PyError AccountConf}

theorem untranslated_getUrlsBy {table : Dict ApiUrls}
    {keyMsg keyName tenantMsg tenantName : String} {missing : String → String}
    {key tenantId : Option String} :
    Untranslated (getUrlsBy table keyMsg keyName tenantMsg tenantName missing key tenantId) :=
  untranslated_required.bind fun _ ↦ untranslated_required.bind fun _ ↦
    untranslated_required.bind fun _ ↦ untranslated_ok _

theorem untranslated_getMicrosoftUrls (tenantId : Option String) :
    Untranslated (v.getMicrosoftUrls tenantId) := by
  rw [AccountValidator.getMicrosoftUrls]
  split
  · exact untranslated_getUrlsBy
  split
  · exact untranslated_getUrlsBy
  · exact untranslated_error id

theorem exists_getMicrosoftUrls_iff {tenantId : Option String} :
    (∃ urls, v.getMicrosoftUrls tenantId = .ok urls) ↔
      truthyStr tenantId = true ∧ (urlsEntry v).isSome = true := by
  have hentry (entry : Option ApiUrls) : (∃ urls t u, nonemptyStr? tenantId = some t ∧
      entry = some u ∧ injectTenantId u t = urls) ↔
        truthyStr tenantId = true ∧ entry.isSome = true := by
    rw [truthyStr_eq_isSome, Option.isSome_iff_exists, Option.isSome_iff_exists]
    constructor
    · rintro ⟨_, t, u, ht, hu, -⟩
      exact ⟨⟨t, ht⟩, u, hu⟩
    · rintro ⟨⟨t, ht⟩, u, hu⟩
      exact ⟨_, t, u, ht, hu, rfl⟩
  rw [AccountValidator.getMicrosoftUrls, urlsEntry]
  split
  · simp only [getUrlsByEnvironment_eq_ok_iff, hentry]
  split
  · simp only [getUrlsByLocation_eq_ok_iff, hentry]
  next hlocation =>
    refine iff_of_false ?_ fun hboth ↦ hlocation ?_
    · rintro ⟨_, ⟨⟩⟩
    -- a location that has an entry is not empty
    obtain ⟨u, hu⟩ := Option.isSome_iff_exists.mp hboth.2
    obtain ⟨location, hlocation', -⟩ := (bind_get_eq_some_iff rfl).mp hu
    rw [truthyStr_eq_isSome, hlocation', Option.isSome_some]

theorem translatable_getUserCredentials (h : RaisesException accountConf) :
    Translatable (v.getUserCredentials accountConf) := by
  have hstanza (conf : AccountConf) : RaisesException (conf.stanza v.globalAccount) := by
    rw [AccountConf.stanza]
    split
    · exact raisesException_ok _
    · exact raisesException_error rfl
  refine translatable_raiseInstead (fun _ ↦ trivial) (h.bind fun conf ↦ ?_)
  refine (raiseInstead_raisesException (fun _ ↦ rfl) ?_).bind fun _ ↦
    (raiseInstead_raisesException (fun _ ↦ rfl) ?_).bind fun _ ↦ ?_
  · exact (hstanza conf).bind fun _ ↦ raisesException_ok _
  · exact (hstanza conf).bind fun _ ↦ raisesException_ok _
  · exact (hstanza conf).bind fun _ ↦ raisesException_ok _

end Resolve

/-! ## The proxy and the request -/

/-- What is asked of others fails by an `Exception`, and the log level by none of the two that the
add-on translates. -/
structure Outside (services : ValidationServices) : Prop where
  useLogLevel : Untranslated services.useLogLevel
  accountConf : RaisesException services.accountConf
  connect : ∀ url proxies e, services.connect url proxies = some e → e.isException = true
  post : ∀ request, RaisesException (services.post request)

section Validate

variable {v : AccountValidator} {services : LoginServices}

theorem not_translated_of_exit {e : PyError} (h : e.isException = false) : ¬Translated e := by
  cases e <;> first | exact id | cases h

/-- Whether the proxy works is reported; where `get_proxy` ends the process, it ends. -/
theorem translatable_getProxies_iff {url : String}
    (hconnect : ∀ url proxies e, services.connect url proxies = some e → e.isException = true) :
    Translatable (AccountValidator.getProxies services url) ↔ RaisesException services.proxy := by
  rw [AccountValidator.getProxies, AccountValidator.proxiesOrNone]
  cases hproxy : services.proxy with
  | error e =>
    dsimp only
    cases he : e.isException with
    | true => exact iff_of_true (translatable_ok none) (raisesException_error he)
    | false =>
      refine iff_of_false (fun h ↦ not_translated_of_exit he (h e rfl)) fun h ↦ ?_
      exact Bool.false_ne_true (he.symm.trans (h e rfl))
  | ok proxies =>
    refine iff_of_true ?_ (raisesException_ok proxies)
    cases proxies with
    | none => exact translatable_ok none
    | some used =>
      change Translatable (if used.isEmpty then _ else _)
      split
      · exact translatable_ok _
      · refine translatable_bind_iff.mpr ⟨?_, fun _ _ ↦ translatable_ok _⟩
        refine translatable_raiseInstead (fun _ ↦ trivial) ?_
        cases hanswer : services.connect url used with
        | none => exact raisesException_ok ()
        | some e => exact raisesException_error (hconnect url used e hanswer)

theorem raiseOnErrorCode_raisesException (resp : Json.Object) :
    RaisesException (v.raiseOnErrorCode services resp) := by
  have hitem : RaisesException (resp.getD "error_codes").item0 := by
    rw [Json.item0.eq_def]
    split
    · exact raisesException_ok _
    · exact raisesException_error rfl
    · split
      · exact raisesException_ok _
      · exact raisesException_error rfl
    · exact raisesException_error rfl
    · exact raisesException_error rfl
  refine hitem.bind fun code ↦ ?_
  split_ifs <;> first | exact raisesException_error rfl | exact raisesException_ok ()

theorem translatable_request {credentials : UserCredentials} {request : LoginRequest}
    (hpost : ∀ request, RaisesException (services.post request)) :
    Translatable (raiseInstead AccountValidator.requestFailure do
      let _clientSecret ← match credentials.clientSecret with
        | some clientSecret => Except.ok clientSecret
        | none => .error .typeError
      let resp ← services.post request
      let resp ← asObject resp
      if (resp.getD "error_codes").truthy then v.raiseOnErrorCode services resp
      else return ()) := by
  refine translatable_raiseInstead (fun e ↦ ?_) ?_
  · cases e <;> exact trivial
  · cases credentials.clientSecret with
    | none => exact raisesException_error rfl
    | some clientSecret =>
      refine (hpost request).bind fun resp ↦ (asObject_raisesException resp).bind fun fields ↦ ?_
      split
      · exact raiseOnErrorCode_raisesException fields
      · exact raisesException_ok ()

end Validate

/-- The URLs resolve, and the proxy settings can be read if they are needed. -/
def Settled (services : LoginServices) (v : AccountValidator) (stanza : Dict String) : Prop :=
  (truthyStr (orStr v.tenantId (stanza.get "tenant_id")) = true ∧ (urlsEntry v).isSome = true) ∧
    (stanza.get "use_delegated_permissions" = some "1" ∨ RaisesException services.proxy)

theorem translatable_validate_of_unknown {services : ValidationServices} (h : Outside services)
    {v : AccountValidator} (hunknown : ¬∃ conf stanza, services.accountConf = .ok conf ∧
      Dict.get conf v.globalAccount = some stanza) :
    Translatable (v.validate services.toLoginServices) := by
  cases hcredentials : v.getUserCredentials services.accountConf with
  | ok credentials =>
    obtain ⟨conf, stanza, hconf, hstanza, -⟩ :=
      InputConf.getUserCredentials_eq_ok_iff.mp hcredentials
    exact absurd ⟨conf, stanza, hconf, hstanza⟩ hunknown
  | error e =>
    rw [AccountValidator.validate, AccountValidator.resolve, hcredentials]
    exact translatable_error_iff.mpr (translatable_getUserCredentials h.accountConf e hcredentials)

/-- With the account known, it is the URLs and the proxy settings that count. -/
theorem translatable_validate_iff_settled {services : ValidationServices} (h : Outside services)
    {v : AccountValidator} {conf : AccountConf} {stanza : Dict String}
    (hconf : services.accountConf = .ok conf)
    (hstanza : Dict.get conf v.globalAccount = some stanza) :
    Translatable (v.validate services.toLoginServices) ↔
      Settled services.toLoginServices v stanza := by
  have hcredentials : v.getUserCredentials services.accountConf = .ok ⟨stanza.get "username",
      stanza.get "password", stanza.get "tenant_id",
        stanza.get "use_delegated_permissions" = some "1"⟩ :=
    InputConf.getUserCredentials_eq_ok_iff.mpr ⟨conf, stanza, hconf, hstanza, rfl⟩
  rw [AccountValidator.validate, AccountValidator.resolve, hcredentials, Settled,
    ← exists_getMicrosoftUrls_iff]
  change Translatable ((v.getMicrosoftUrls (orStr v.tenantId (stanza.get "tenant_id")) >>= _) >>= _)
    ↔ _
  cases hurls : v.getMicrosoftUrls (orStr v.tenantId (stanza.get "tenant_id")) with
  | error e =>
    refine iff_of_false (fun htranslatable ↦ ?_) ?_
    · exact untranslated_getMicrosoftUrls _ e hurls (htranslatable e rfl)
    · rintro ⟨⟨_, ⟨⟩⟩, -⟩
  | ok urls =>
    change Translatable (if decide (stanza.get "use_delegated_permissions" = some "1") = true then
      _ else _) ↔ _
    by_cases hdelegated : stanza.get "use_delegated_permissions" = some "1"
    · rw [if_pos (decide_eq_true hdelegated)]
      exact iff_of_true (translatable_ok ()) ⟨⟨urls, rfl⟩, .inl hdelegated⟩
    · rw [if_neg (by simp [hdelegated]), translatable_bind_iff,
        translatable_getProxies_iff h.connect]
      constructor
      · exact fun hproxy ↦ ⟨⟨urls, rfl⟩, .inr hproxy.1⟩
      · rintro ⟨-, hdelegated' | hproxy⟩
        · exact absurd hdelegated' hdelegated
        · exact ⟨hproxy, fun proxies _ ↦ translatable_request h.post⟩

theorem translatable_validate_iff {services : ValidationServices} (h : Outside services)
    {v : AccountValidator} : Translatable (v.validate services.toLoginServices) ↔
      ∀ conf stanza, services.accountConf = .ok conf → Dict.get conf v.globalAccount = some stanza →
        Settled services.toLoginServices v stanza := by
  by_cases hknown : ∃ conf stanza, services.accountConf = .ok conf ∧
      Dict.get conf v.globalAccount = some stanza
  · obtain ⟨conf, stanza, hconf, hstanza⟩ := hknown
    rw [translatable_validate_iff_settled h hconf hstanza]
    constructor
    · intro hsettled conf' stanza' hconf' hstanza'
      obtain rfl := Except.ok.inj (hconf.symm.trans hconf')
      obtain rfl := Option.some.inj (hstanza.symm.trans hstanza')
      exact hsettled
    · exact fun hsettled ↦ hsettled conf stanza hconf hstanza
  · exact iff_of_true (translatable_validate_of_unknown h hknown) fun conf stanza hconf hstanza ↦
      absurd ⟨conf, stanza, hconf, hstanza⟩ hknown

/-! ## The whole function -/

/-- The session key and the log level are there, the payload names an account and not both an
environment and a location, and the account, if it is known, is settled. -/
structure Proper (services : ValidationServices) (payload : Payload) (sessionKey : Option String) :
    Prop where
  sessionKey : truthyStr sessionKey = true
  useLogLevel : services.useLogLevel = .ok ()
  notBoth : ¬(truthyStr payload.environment ∧ truthyStr payload.location)
  azureAppAccount : truthyStr payload.azureAppAccount = true
  settled : ∀ account conf stanza, payload.azureAppAccount = some account →
    services.accountConf = .ok conf → Dict.get conf account = some stanza →
      Settled services.toLoginServices
        ⟨account, payload.tenantId, payload.environment, payload.location⟩ stanza

/-- **What leaves the validation of an account.** Nothing but a `RestError`, exactly when the call
is proper. -/
theorem onlyRestErrors_iff {services : ValidationServices} (h : Outside services)
    (payload : Payload) (sessionKey : Option String) :
    OnlyRestErrors (accountValidation services payload sessionKey) ↔
      Proper services payload sessionKey := by
  rw [accountValidation, onlyRestErrors_mapError_iff, translatable_bind_iff,
    (untranslated_create h.useLogLevel).translatable_iff]
  constructor
  · rintro ⟨⟨v, hv⟩, hvalidate⟩
    have hsettled := (translatable_validate_iff h).mp (hvalidate v hv)
    obtain ⟨hkey, hlog, hinit⟩ := create_eq_ok_iff.mp hv
    obtain ⟨hboth, account, haccount, rfl⟩ := init_eq_ok_iff.mp hinit
    refine ⟨hkey, hlog, hboth, ?_, fun account' conf stanza haccount' ↦ ?_⟩
    · rw [truthyStr_eq_isSome, haccount, Option.isSome_some]
    · obtain rfl := Option.some.inj ((nonemptyStr?_eq_some_iff.mp haccount).1.symm.trans haccount')
      exact hsettled conf stanza
  · rintro ⟨hkey, hlog, hboth, haccount, hsettled⟩
    rw [truthyStr_eq_isSome, Option.isSome_iff_exists] at haccount
    obtain ⟨account, haccount⟩ := haccount
    have hinit := init_eq_ok_iff.mpr ⟨hboth, account, haccount, rfl⟩
    have hcreate := create_eq_ok_iff.mpr ⟨hkey, hlog, hinit⟩
    refine ⟨⟨_, hcreate⟩, fun v hv ↦ ?_⟩
    obtain rfl := Except.ok.inj (hcreate.symm.trans hv)
    exact (translatable_validate_iff h).mpr fun conf stanza ↦
      hsettled account conf stanza (nonemptyStr?_eq_some_iff.mp haccount).1

/-- A validation with a login, the log level being read. -/
def validating (login : LoginServices) : ValidationServices where
  toLoginServices := login
  useLogLevel := .ok ()
  text := fun _ ↦ ""

/-- An input of one account in the commercial environment. -/
def commercialPayload : Payload where
  azureAppAccount := some "acc"
  tenantId := none
  environment := some "commercial"
  location := none

theorem onlyRestErrors_commercial :
    OnlyRestErrors (accountValidation (validating (answering invalidRequest)) commercialPayload
      (some "key")) := by
  have houtside : Outside (validating (answering invalidRequest)) :=
    ⟨untranslated_ok (), raisesException_ok _, nofun, fun _ ↦ raisesException_ok _⟩
  refine (onlyRestErrors_iff houtside commercialPayload (some "key")).mpr
    ⟨rfl, rfl, by decide, rfl, ?_⟩
  rintro _ _ stanza ⟨⟩ ⟨⟩ hstanza
  obtain rfl := Option.some.inj hstanza
  exact ⟨⟨rfl, rfl⟩, .inr (raisesException_ok _)⟩

/-- Without an environment and a location, a `ValueError` leaves; where the proxy settings cannot be
read, the process ends. -/
theorem not_onlyRestErrors :
    ¬OnlyRestErrors (accountValidation (validating (answering grant))
      { commercialPayload with environment := none } (some "key")) ∧
    ¬OnlyRestErrors (accountValidation
      (validating { answering grant with proxy := .error (.systemExit 1) }) commercialPayload
      (some "key")) := by
  constructor
  · intro h
    obtain ⟨status, msg, hrest⟩ := h (.valueError
      "Environment or location must be provided. Both are missing") rfl
    cases hrest
  · intro h
    obtain ⟨status, msg, hrest⟩ := h (.systemExit 1) rfl
    cases hrest

/-! ## In the handlers of the inputs -/

/-- What the handlers of the inputs get before the validation. -/
def prepare (services : ValidationServices) (sessionKey : Option String) : Except PyError Unit := do
  let _sessionKey ← required nonemptyStr? sessionKey requiredDefaultMsg "session_key"
  services.useLogLevel

/-- The handlers of the inputs validate as it is done here. -/
theorem ends_handler_accountValidation {accounts : AccountConf}
    {answers : InputStanza.Answers accounts} {services : ValidationServices}
    {sessionKey : Option String} (hlogin : services.toLoginServices = answers.login)
    (htext : services.text = answers.text) (hlog : Untranslated services.useLogLevel)
    (hprepare : prepare services sessionKey = match answers.prepare with
      | none => .ok ()
      | some e => .error e)
    {data : InputStanza.Fields} {s : InputStanza.InputState}
    {Q : Except PyError Unit → InputStanza.InputState → Prop} :
    Ends (InputStanza.accountValidation answers data) s Q ↔
      match accountValidation services (InputStanza.payloadOf data) sessionKey with
      | .ok () => Q (.ok ())
          { s with accepted := s.accepted ++ [InputStanza.payloadOf data] }
      | .error e => Q (.error e) s := by
  have hcreate : create services (InputStanza.payloadOf data) sessionKey =
      prepare services sessionKey >>= fun _ ↦
        AccountValidator.init (InputStanza.payloadOf data) := by
    rw [create, prepare, bind_assoc]
  have hrest : restErrorOf services.text = InputStanza.restErrorOf answers := by
    funext e
    rw [htext]
    cases e <;> rfl
  rw [InputStanza.accountValidation, ends_bind, ends_attempt, accountValidation, hcreate, hprepare]
  cases hfault : answers.prepare with
  | some e =>
    have huntranslated : ¬Translated e := by
      rw [hfault] at hprepare
      exact (untranslated_required.bind fun _ ↦ hlog) e hprepare
    have hsame : restErrorOf services.text e = e := by
      cases e <;> first | rfl | exact absurd trivial huntranslated
    change Q (.error e) s ↔ Q (.error (restErrorOf services.text e)) s
    rw [hsame]
  | none =>
    change Ends (_ >>= _) s Q ↔ _
    rw [ends_bind, ends_liftExcept, ← hlogin, ← hrest]
    change _ ↔ match Except.mapError (restErrorOf services.text)
      (AccountValidator.init (InputStanza.payloadOf data) >>= _) with
        | .ok () => _
        | .error e => _
    cases AccountValidator.init (InputStanza.payloadOf data) >>=
      fun v ↦ v.validate services.toLoginServices with
    | ok _ => exact Iff.rfl
    | error e => exact Iff.rfl

end AccountValidation

end MsSecurity
