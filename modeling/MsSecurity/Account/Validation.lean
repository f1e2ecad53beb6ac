import MsSecurity.Account.AccessToken
import MsSecurity.Collector.Stream

/-!
# Validation of an input when it is saved

The REST handlers of the inputs run `account_validation` before they save: it resolves the API URLs
of the input and asks for a token. Resolving is written a second time there. It agrees with what the
collectors do (`agrees_iff`), except that they replace the general location, which the handlers have
as their default, and the validation does not.
-/

namespace MsSecurity

/-! ## The validator -/

/-- What is saved for an input, as far as it is validated. -/
structure Payload where
  azureAppAccount : Option String
  tenantId : Option String
  environment : Option String
  location : Option String

/-- An instance of `AccountValidator`, after `__init__`. -/
structure AccountValidator where
  globalAccount : String
  tenantId : Option String
  environment : Option String
  location : Option String

/-- What `_get_user_credentials` returns and sets. -/
structure UserCredentials where
  clientId : Option String
  clientSecret : Option String
  tenantId : Option String
  useDelegatedPermissions : Bool

namespace AccountValidator

/-- `__init__`, with its `_validate_payload`. -/
def init (payload : Payload) : Except PyError AccountValidator := do
  if truthyStr payload.environment ∧ truthyStr payload.location then
    throw (.valueError
      "Configuration error: one of 'environment' or 'location' is expected, not both")
  let globalAccount ← required nonemptyStr? payload.azureAppAccount
    "Configuration error: azure_app_account is required" ""
  return {
    globalAccount := globalAccount
    tenantId := payload.tenantId
    environment := payload.environment
    location := payload.location }

variable (v : AccountValidator)

def isGetAlertScript : Bool := v.location.isSome

/-- `_get_user_credentials`. -/
def getUserCredentials (accountConf : Except PyError AccountConf) :
    Except PyError UserCredentials :=
  raiseInstead (.taExecutionFrom · 0) do
    let conf ← accountConf
    let clientId ← raiseInstead (.taExecutionFrom · 0) do
      return (← conf.stanza v.globalAccount).get "username"
    let clientSecret ← raiseInstead (.taExecutionFrom · 0) do
      return (← conf.stanza v.globalAccount).get "password"
    let stanza ← conf.stanza v.globalAccount
    return {
      clientId := clientId
      clientSecret := clientSecret
      tenantId := stanza.get "tenant_id"
      useDelegatedPermissions := stanza.get "use_delegated_permissions" = some "1" }

/-- `_get_microsoft_urls`. -/
def getMicrosoftUrls (tenantId : Option String) : Except PyError ApiUrls :=
  if truthyStr v.environment then getUrlsByEnvironment v.environment tenantId
  else if truthyStr v.location then getUrlsByLocation v.location tenantId
  else throw (.valueError "Environment or location must be provided. Both are missing")

/-- What `validate` starts with. -/
def resolve (accountConf : Except PyError AccountConf) :
    Except PyError (UserCredentials × ApiUrls) := do
  let credentials ← v.getUserCredentials accountConf
  let urls ← v.getMicrosoftUrls (orStr v.tenantId credentials.tenantId)
  return (credentials, urls)

/-- `_get_user_agent`. -/
def getUserAgent (services : LoginServices) : String :=
  (if v.isGetAlertScript then "MdePartner-Splunk-MicrosoftSecurityAddOn/"
    else "M365DPartner-Splunk-MicrosoftSecurityAddOn/") ++ services.currentVersion.getD "None"

/-- Where `get_proxy` raises, no proxy is used. -/
def proxiesOrNone (services : LoginServices) : Except PyError (Option Proxies) :=
  match services.proxy with
  | .ok proxies => .ok proxies
  | .error e => if e.isException then .ok none else .error e

/-- `_get_proxies`. -/
def getProxies (services : LoginServices) (authorizationServerUrl : String) :
    Except PyError (Option Proxies) := do
  match ← proxiesOrNone services with
  | none => return none
  | some proxies =>
    if proxies.isEmpty then return some proxies
    else
      raiseInstead (fun _ ↦ .restError 400 "Failure connecting via proxy")
        (match services.connect authorizationServerUrl proxies with
          | none => .ok ()
          | some e => .error e)
      return some proxies

/-- `_raise_on_error_code`. A code that is false raises nothing. -/
def raiseOnErrorCode (services : LoginServices) (resp : Json.Object) : Except PyError Unit := do
  let errorCode ← (resp.getD "error_codes").item0
  if errorCode.eqInt 90002 ∨ errorCode.eqInt 900023 then throw (.restError 400 "Invalid Tenant ID")
  else if errorCode.eqInt 7000215 then
    throw (.restError 400
      "Incorrect Client Secret of the Azure App Account used to configure this Input")
  else if errorCode.eqInt 700016 then
    throw (.restError 400
      "Incorrect Client ID of the Azure App Account used to configure this Input")
  else if errorCode.eqInt 90038 then
    throw (.restError 400
      ("Account '" ++ v.globalAccount ++ "' is unauthorised for National Cloud"))
  else if errorCode.eqInt 500011 then
    throw (.restError 400
      ("Account '" ++ v.globalAccount ++ "' is unauthorised for GCC environment"))
  else if errorCode.truthy then
    throw (.restError 400 ("Failed to connect with account : " ++ v.globalAccount ++
      ", receiving error code : " ++ services.str errorCode))
  else return ()

/-- What becomes of an exception of the request: only a `RestError` is passed on. -/
def requestFailure : PyError → PyError
  | .restError status msg => .restError status msg
  | _ => .restError 503 "Unable to connect to server. Please check logs for more details"

/-- `validate`. -/
def validate (services : LoginServices) : Except PyError Unit := do
  let (credentials, urls) ← v.resolve services.accountConf
  if credentials.useDelegatedPermissions then return ()
  let proxies ← getProxies services urls.authorization
  let payload := getLoginPayload urls.api credentials.clientId urls.resource
    credentials.clientSecret
  raiseInstead requestFailure do
    -- the first character of the secret is logged, so there has to be one to slice
    let _clientSecret ← match credentials.clientSecret with
      | some clientSecret => .ok clientSecret
      | none => .error .typeError
    let resp ← services.post
      ⟨urls.authorization, payload, proxies, some (v.getUserAgent services)⟩
    let resp ← asObject resp
    if (resp.getD "error_codes").truthy then v.raiseOnErrorCode services resp else return ()

end AccountValidator

/-! ## What is validated and what runs -/

/-- The inputs whose account and location the handlers validate. -/
inductive InputType
  | incidents
  | advancedHunting
  | alerts
  | machines
  deriving DecidableEq

/-- Whether an input of the type names an environment; else it names a location. -/
def InputType.byEnvironment : InputType → Bool
  | incidents => true
  | advancedHunting => true
  | alerts => false
  | machines => false

/-- An input, with the fields that its handler requires. -/
structure InputConf where
  type : InputType
  item : InputItem
  /-- The query of an advanced hunting input. -/
  query : Option String
  account_ne : item.azureAppAccount ≠ ""
  environment_isSome : item.environment.isSome = type.byEnvironment
  location_isSome : item.location.isSome = !type.byEnvironment
  query_ne : type = .advancedHunting → truthyStr query = true

namespace InputConf

variable (conf : InputConf) (accountConf : Except PyError AccountConf)

def payload : Payload where
  azureAppAccount := some conf.item.azureAppAccount
  tenantId := conf.item.tenantId
  environment := conf.item.environment
  location := conf.item.location

/-- The URLs that the validation of the input resolves. -/
def validatedUrls : Except PyError ApiUrls := do
  let v ← AccountValidator.init conf.payload
  return (← v.resolve accountConf).2

/-- The URLs of an advanced hunting input. -/
def urlsOfHunting (tenantId : Option String) : Except PyError ApiUrls := do
  let tenantId ← required nonemptyStr? tenantId "Required input parameter 'tenant_id' missing" ""
  let environment ← required nonemptyStr? conf.item.environment
    "Required input parameter 'environment' missing" ""
  let _query ← required nonemptyStr? conf.query "Required input parameter 'query' missing" ""
  getUrlsByEnvironment (some environment) (some tenantId)

/-- The URLs of an input of any type, as its collector resolves them. -/
def urlsOf (tenantId : Option String) : Except PyError ApiUrls :=
  match conf.type with
  | .incidents => do return (← conf.item.urlsOfEnvironment tenantId).2.2
  | .advancedHunting => conf.urlsOfHunting tenantId
  | .alerts => conf.item.urlsOfLocation tenantId
  | .machines => conf.item.urlsOfLocation tenantId

/-- The URLs that the collector of the input resolves. -/
def collectedUrls : Except PyError ApiUrls := do
  let account ← getAccountDetails accountConf conf.item.azureAppAccount
  conf.urlsOf (orStr conf.item.tenantId account.tenantId)

/-- The validation and the collector resolve the same URLs, or neither resolves any. -/
def Agrees : Prop :=
  ∀ urls, conf.validatedUrls accountConf = .ok urls ↔ conf.collectedUrls accountConf = .ok urls

/-- `t` is the tenant of the input: its own or else its account's, and not empty. -/
def Tenant (t : String) : Prop :=
  ∃ accounts stanza, accountConf = .ok accounts ∧
    Dict.get accounts conf.item.azureAppAccount = some stanza ∧
    nonemptyStr? (orStr conf.item.tenantId (stanza.get "tenant_id")) = some t

/-- The URLs are those of an entry of a table, for the tenant of the input. -/
def ResolvesTo (entry : Option ApiUrls) (urls : ApiUrls) : Prop :=
  ∃ t u, conf.Tenant accountConf t ∧ entry = some u ∧ injectTenantId u t = urls

/-- The entry the validation looks up. -/
def validatedEntry : Option ApiUrls :=
  if conf.type.byEnvironment then conf.item.environment.bind urlsByEnvironment.get
  else conf.item.location.bind urlsByLocation.get

/-- The entry the collector looks up. -/
def collectedEntry : Option ApiUrls :=
  if conf.type.byEnvironment then conf.item.environment.bind urlsByEnvironment.get
  else conf.item.location.bind fun location ↦ urlsByLocation.get (relocate location)

variable {conf accountConf} {urls : ApiUrls}

theorem environment_eq_none (h : conf.type.byEnvironment = false) :
    conf.item.environment = none := by
  rw [← Option.not_isSome_iff_eq_none, conf.environment_isSome, h]
  exact Bool.false_ne_true

theorem location_eq_none (h : conf.type.byEnvironment = true) : conf.item.location = none := by
  rw [← Option.not_isSome_iff_eq_none, conf.location_isSome, h]
  exact Bool.false_ne_true

theorem init_payload : AccountValidator.init conf.payload = .ok
    ⟨conf.item.azureAppAccount, conf.item.tenantId, conf.item.environment, conf.item.location⟩ := by
  have hboth : ¬(truthyStr conf.item.environment ∧ truthyStr conf.item.location) := by
    cases h : conf.type.byEnvironment with
    | true => simp [location_eq_none h]
    | false => simp [environment_eq_none h]
  have haccount : required nonemptyStr? (some conf.item.azureAppAccount)
      "Configuration error: azure_app_account is required" "" = .ok conf.item.azureAppAccount :=
    required_eq_ok_iff.mpr (nonemptyStr?_eq_some_iff.mpr ⟨rfl, conf.account_ne⟩)
  rw [AccountValidator.init, payload, if_neg hboth, haccount]
  rfl

theorem getUserCredentials_eq_ok_iff {v : AccountValidator} {credentials : UserCredentials} :
    v.getUserCredentials accountConf = .ok credentials ↔
      ∃ accounts stanza, accountConf = .ok accounts ∧
        Dict.get accounts v.globalAccount = some stanza ∧
        credentials = ⟨stanza.get "username", stanza.get "password", stanza.get "tenant_id",
          stanza.get "use_delegated_permissions" = some "1"⟩ := by
  simp only [AccountValidator.getUserCredentials, raiseInstead_eq_ok_iff, bind_eq_ok_iff,
    AccountConf.stanza_eq_ok_iff, pure, Except.pure, Except.ok.injEq]
  constructor
  · rintro ⟨accounts, haccounts, _, ⟨stanza₁, h₁, rfl⟩, _, ⟨stanza₂, h₂, rfl⟩, stanza, h, rfl⟩
    rw [h] at h₁ h₂
    obtain rfl := Option.some.inj h₁
    obtain rfl := Option.some.inj h₂
    exact ⟨accounts, stanza, haccounts, h, rfl⟩
  · rintro ⟨accounts, stanza, haccounts, h, rfl⟩
    exact ⟨accounts, haccounts, _, ⟨stanza, h, rfl⟩, _, ⟨stanza, h, rfl⟩, stanza, h, rfl⟩

/-- The lookup of the validation, whichever of the two keys the input has. -/
theorem getMicrosoftUrls_eq_ok_iff {v : AccountValidator} {tenantId : Option String}
    (henvironment : v.environment = conf.item.environment)
    (hlocation : v.location = conf.item.location) :
    v.getMicrosoftUrls tenantId = .ok urls ↔
      ∃ t u, nonemptyStr? tenantId = some t ∧ conf.validatedEntry = some u ∧
        injectTenantId u t = urls := by
  rw [AccountValidator.getMicrosoftUrls, validatedEntry, henvironment, hlocation]
  cases htype : conf.type.byEnvironment with
  | true =>
    rw [if_pos rfl]
    by_cases hkey : truthyStr conf.item.environment = true
    · rw [if_pos hkey]
      exact getUrlsByEnvironment_eq_ok_iff
    · rw [if_neg hkey, location_eq_none htype]
      refine iff_of_false (fun h ↦ nomatch h) ?_
      rintro ⟨t, u, -, hu, -⟩
      obtain ⟨k, hk, -⟩ := (bind_get_eq_some_iff rfl).mp hu
      rw [truthyStr_eq_isSome, hk] at hkey
      exact hkey rfl
  | false =>
    -- no environment: the location decides
    have hfalse : ¬truthyStr none = true := Bool.false_ne_true
    rw [environment_eq_none htype, if_neg Bool.false_ne_true, if_neg hfalse]
    by_cases hkey : truthyStr conf.item.location = true
    · rw [if_pos hkey]
      exact getUrlsByLocation_eq_ok_iff
    · rw [if_neg hkey]
      refine iff_of_false (fun h ↦ nomatch h) ?_
      rintro ⟨t, u, -, hu, -⟩
      obtain ⟨k, hk, -⟩ := (bind_get_eq_some_iff rfl).mp hu
      rw [truthyStr_eq_isSome, hk] at hkey
      exact hkey rfl

theorem validatedUrls_eq_ok_iff : conf.validatedUrls accountConf = .ok urls ↔
    conf.ResolvesTo accountConf conf.validatedEntry urls := by
  rw [validatedUrls, init_payload]
  simp only [AccountValidator.resolve, bind_eq_ok_iff, getUserCredentials_eq_ok_iff, pure,
    Except.pure, Except.ok.injEq, exists_eq_left']
  constructor
  · rintro ⟨_, ⟨_, ⟨accounts, stanza, haccounts, hstanza, rfl⟩, urls, hurls, rfl⟩, rfl⟩
    obtain ⟨t, u, ht, hu, rfl⟩ := (getMicrosoftUrls_eq_ok_iff rfl rfl).mp hurls
    exact ⟨t, u, ⟨accounts, stanza, haccounts, hstanza, ht⟩, hu, rfl⟩
  · rintro ⟨t, u, ⟨accounts, stanza, haccounts, hstanza, ht⟩, hu, rfl⟩
    exact ⟨_, ⟨_, ⟨accounts, stanza, haccounts, hstanza, rfl⟩, _,
      (getMicrosoftUrls_eq_ok_iff rfl rfl).mpr ⟨t, u, ht, hu, rfl⟩, rfl⟩, rfl⟩

theorem urlsOfHunting_eq_ok_iff (htype : conf.type = .advancedHunting) {tenantId : Option String} :
    conf.urlsOfHunting tenantId = .ok urls ↔
      ∃ t u, nonemptyStr? tenantId = some t ∧
        conf.item.environment.bind urlsByEnvironment.get = some u ∧ injectTenantId u t = urls := by
  have hquery : ∃ query, nonemptyStr? conf.query = some query := by
    rw [← Option.isSome_iff_exists, ← truthyStr_eq_isSome]
    exact conf.query_ne htype
  simp only [urlsOfHunting, bind_eq_ok_iff, required_eq_ok_iff, getUrlsByEnvironment_eq_ok_iff]
  constructor
  · rintro ⟨t', ht', e, he, -, -, t, u, ht, hu, rfl⟩
    obtain rfl := Option.some.inj (nonemptyStr?_eq_some_iff.mp ht).1
    rw [(nonemptyStr?_eq_some_iff.mp he).1]
    exact ⟨_, u, ht', hu, rfl⟩
  · rintro ⟨t, u, ht, hu, rfl⟩
    obtain ⟨e, he, hu⟩ := (bind_get_eq_some_iff rfl).mp hu
    obtain ⟨query, hquery⟩ := hquery
    have ht' := nonemptyStr?_eq_some_iff.mpr ⟨rfl, (nonemptyStr?_eq_some_iff.mp ht).2⟩
    exact ⟨t, ht, e, he, query, hquery, t, u, ht', hu, rfl⟩

theorem urlsOf_eq_ok_iff {tenantId : Option String} : conf.urlsOf tenantId = .ok urls ↔
    ∃ t u, nonemptyStr? tenantId = some t ∧ conf.collectedEntry = some u ∧
      injectTenantId u t = urls := by
  rw [urlsOf, collectedEntry]
  cases htype : conf.type with
  | incidents =>
    simp only [bind_eq_ok_iff, pure, Except.pure, Except.ok.injEq]
    constructor
    · rintro ⟨⟨environment, t, urls⟩, h, rfl⟩
      obtain ⟨henvironment, ht, u, hu, rfl⟩ := InputItem.urlsOfEnvironment_eq_ok_iff.mp h
      exact ⟨t, u, ht, (bind_get_eq_some_iff rfl).mpr ⟨environment, henvironment, hu⟩, rfl⟩
    · rintro ⟨t, u, ht, hu, rfl⟩
      obtain ⟨environment, henvironment, hu⟩ := (bind_get_eq_some_iff rfl).mp hu
      exact ⟨(environment, t, _),
        InputItem.urlsOfEnvironment_eq_ok_iff.mpr ⟨henvironment, ht, u, hu, rfl⟩, rfl⟩
  | advancedHunting => exact urlsOfHunting_eq_ok_iff htype
  | alerts => exact InputItem.urlsOfLocation_eq_ok_iff
  | machines => exact InputItem.urlsOfLocation_eq_ok_iff

theorem collectedUrls_eq_ok_iff : conf.collectedUrls accountConf = .ok urls ↔
    conf.ResolvesTo accountConf conf.collectedEntry urls := by
  simp only [collectedUrls, bind_eq_ok_iff, getAccountDetails_eq_ok_iff, urlsOf_eq_ok_iff]
  constructor
  · rintro ⟨_, ⟨accounts, stanza, haccounts, hstanza, rfl⟩, t, u, ht, hu, rfl⟩
    exact ⟨t, u, ⟨accounts, stanza, haccounts, hstanza, ht⟩, hu, rfl⟩
  · rintro ⟨t, u, ⟨accounts, stanza, haccounts, hstanza, ht⟩, hu, rfl⟩
    exact ⟨_, ⟨accounts, stanza, haccounts, hstanza, rfl⟩, t, u, ht, hu, rfl⟩

end InputConf

/-- The type of the inputs that a collector runs. -/
def Collector.inputType : Collector → InputType
  | incidents => .incidents
  | alerts => .alerts
  | machines => .machines

/-- A pass that ends normally has resolved the URLs of its input. -/
theorem InputConf.exists_collectedUrls {conf : InputConf} {accountConf : Except PyError AccountConf}
    {c : Collector} {services : Services} {prior accessToken : Json} {w w' : World}
    (htype : conf.type = c.inputType)
    (haccount : services.accountDetails = getAccountDetails accountConf)
    (hrun : c.stream services conf.item prior w = .ok accessToken w') :
    ∃ urls, conf.collectedUrls accountConf = .ok urls := by
  simp only [collectedUrls, bind_eq_ok_iff, urlsOf, htype, ← haccount]
  cases c with
  | incidents =>
    obtain ⟨account, _, haccount, hrun⟩ := bind_eq_ok_iff_exists.mp hrun
    obtain ⟨queryDate, _, -, hrun⟩ := bind_eq_ok_iff_exists.mp hrun
    obtain ⟨scope, _, hscope, -⟩ := bind_eq_ok_iff_exists.mp hrun
    refine ⟨scope.2.2, account, (liftExcept_eq_ok_iff.mp haccount).1, ?_⟩
    exact bind_eq_ok_iff.mpr ⟨scope, (liftExcept_eq_ok_iff.mp hscope).1, rfl⟩
  | alerts =>
    obtain ⟨account, _, haccount, hrun⟩ := bind_eq_ok_iff_exists.mp hrun
    obtain ⟨urls, _, hurls, -⟩ := bind_eq_ok_iff_exists.mp hrun
    exact ⟨urls, account, (liftExcept_eq_ok_iff.mp haccount).1, (liftExcept_eq_ok_iff.mp hurls).1⟩
  | machines =>
    obtain ⟨account, _, haccount, hrun⟩ := bind_eq_ok_iff_exists.mp hrun
    obtain ⟨urls, _, hurls, -⟩ := bind_eq_ok_iff_exists.mp hrun
    exact ⟨urls, account, (liftExcept_eq_ok_iff.mp haccount).1, (liftExcept_eq_ok_iff.mp hurls).1⟩

/-! ## The general location -/

/-- Only the general location is looked up under another name. -/
theorem InputConf.validatedEntry_eq_collectedEntry {conf : InputConf}
    (h : conf.item.location ≠ some generalLocation) :
    conf.validatedEntry = conf.collectedEntry := by
  rw [validatedEntry, collectedEntry]
  cases hlocation : conf.item.location with
  | none => rfl
  | some location =>
    have hne : location ≠ generalLocation := by
      rintro rfl
      exact h hlocation
    rw [Option.bind_some, Option.bind_some, relocate, if_neg hne]

/-- **Validated exactly if it runs, the general location apart.** The validation of an input
resolves the URLs that its collector resolves, and none if the collector resolves none, if and only
if the input does not have both a tenant and the general location. -/
theorem InputConf.agrees_iff {conf : InputConf} {accountConf : Except PyError AccountConf} :
    conf.Agrees accountConf ↔
      ∀ t, conf.Tenant accountConf t → conf.item.location ≠ some generalLocation := by
  simp only [Agrees, validatedUrls_eq_ok_iff, collectedUrls_eq_ok_iff]
  -- with the general location the collector finds an entry and the validation none
  constructor
  · intro h t ht hlocation
    have hentries : conf.validatedEntry = none ∧ conf.collectedEntry =
        urlsByLocation.get "api.securitycenter.microsoft.com" := by
      have htype : conf.type.byEnvironment = false := by
        rw [← Bool.not_eq_true', ← conf.location_isSome, hlocation]
        rfl
      rw [validatedEntry, collectedEntry, htype, hlocation]
      exact ⟨rfl, rfl⟩
    obtain ⟨-, u, -, hu, -⟩ := (h _).mpr ⟨t, _, ht, hentries.2, rfl⟩
    rw [hentries.1] at hu
    cases hu
  · intro h urls
    refine exists_congr fun t ↦ exists_congr fun u ↦ and_congr_right fun ht ↦ ?_
    rw [validatedEntry_eq_collectedEntry (h t ht)]

/-- An alerts input with the default location. -/
def defaultAlerts : InputConf where
  type := .alerts
  item := {
    azureAppAccount := "acc"
    tenantId := none
    environment := none
    location := some generalLocation
    index := "default"
    sourcetype := "ms:defender:atp:alerts" }
  query := none
  account_ne := by decide
  environment_isSome := rfl
  location_isSome := rfl
  query_ne h := nomatch h

def oneAccount : AccountConf :=
  [("acc", [("username", "id"), ("password", "secret"), ("tenant_id", "t1")])]

/-- The collector could run it, but it is refused. -/
theorem InputConf.not_agrees : ¬∀ (conf : InputConf) (accountConf : Except PyError AccountConf),
    conf.Agrees accountConf := by
  intro h
  have hrun : ∃ urls, defaultAlerts.collectedUrls (.ok oneAccount) = .ok urls := ⟨_, rfl⟩
  obtain ⟨urls, hurls⟩ := hrun
  have hrefused : defaultAlerts.validatedUrls (.ok oneAccount) = .error (.valueError
      "Login URL not found for the location api.securitycenter.windows.com") := rfl
  have hvalidated := (h defaultAlerts (.ok oneAccount) urls).mpr hurls
  rw [hrefused] at hvalidated
  cases hvalidated

end MsSecurity
