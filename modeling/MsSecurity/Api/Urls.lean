import MsSecurity.Python.Value

/-!
# API URLs and request filters

The two Microsoft API families differ in their URLs, in the name of the update field their `$filter`
compares, and in the key that carries the resource of a login request. The tables below are those of
`EnvironmentSpecificUrls`, keyed by environment for incidents and advanced hunting and by location
for alerts and machines; the filters are those of `ApiSpecificContent`.
-/

namespace MsSecurity

/-- The supported API families, `API_365` and `GRAPH_API`. -/
inductive Api
  | api365
  | graphApi
  deriving DecidableEq, Repr

/-- The URLs one environment or location resolves to. -/
structure ApiUrls where
  authorization : String
  resource : String
  alerts : String
  incidents : String
  advancedHunting : String
  machines : String
  simulations : String
  simulationReport : String
  api : Api
  deriving DecidableEq, Repr

/-! ## Required values -/

/-- `required(obj, error_msg, name)`: the value itself, unless it is false. Python's truth value is
read by `value?`, which gives the value when it is true. -/
def required {α β : Type} (value? : α → Option β) (obj : α) (errorMsg name : String) :
    Except PyError β :=
  match value? obj with
  | some v => .ok v
  | none => .error (.valueError ((if name ≠ "" then name ++ ": " else "") ++ errorMsg))

/-- The default of `error_msg`. -/
def requiredDefaultMsg : String := "required value is not set"

/-- The content of an optional string that is neither `None` nor empty. -/
def nonemptyStr? (v : Option String) : Option String := v.filter fun s ↦ s ≠ ""

theorem required_eq_ok_iff {α β : Type} {value? : α → Option β} {obj : α} {v : β}
    {errorMsg name : String} : required value? obj errorMsg name = .ok v ↔ value? obj = some v := by
  rw [required]
  cases value? obj <;> simp

theorem required_raisesException {β : Type} {value? : α → Option β} {obj : α} {msg name : String} :
    RaisesException (required value? obj msg name) := by
  rw [required]
  split
  · exact raisesException_ok _
  · exact raisesException_error rfl

theorem nonemptyStr?_eq_some_iff {v : Option String} {s : String} :
    nonemptyStr? v = some s ↔ v = some s ∧ s ≠ "" := by
  rw [nonemptyStr?, Option.filter_eq_some_iff]
  simp

theorem truthyStr_eq_isSome (v : Option String) : truthyStr v = (nonemptyStr? v).isSome := by
  rw [nonemptyStr?]
  cases v with
  | none => rfl
  | some s => by_cases hs : s = "" <;> simp [hs, Option.filter_some]

theorem orStr_eq_or (a b : Option String) : orStr a b = (nonemptyStr? a).or b := by
  rw [orStr, nonemptyStr?]
  cases a with
  | none => rfl
  | some s => by_cases hs : s = "" <;> simp [hs, Option.filter_some]

theorem nonemptyStr?_orStr (a b : Option String) :
    nonemptyStr? (orStr a b) = (nonemptyStr? a).or (nonemptyStr? b) := by
  rw [orStr_eq_or]
  cases h : nonemptyStr? a with
  | none => rfl
  | some v => exact nonemptyStr?_eq_some_iff.mpr ⟨rfl, (nonemptyStr?_eq_some_iff.mp h).2⟩

/-! ## The tables -/

/-- An entry of the tables for the Microsoft 365 APIs, which have no simulations. -/
private def api365Urls (authorization resource alertsHost host : String) : ApiUrls where
  authorization := authorization
  resource := resource
  alerts := alertsHost ++ "/api/alerts"
  incidents := host ++ "/api/incidents"
  advancedHunting := host ++ "/api/advancedhunting/run"
  machines := host ++ "/api/machines"
  simulations := ""
  simulationReport := ""
  api := .api365

/-- An entry of the tables for the Graph API. -/
private def graphApiUrls (authorization host : String) : ApiUrls where
  authorization := authorization
  resource := host ++ "/.default"
  alerts := host ++ "/v1.0/security/alerts_v2"
  incidents := host ++ "/v1.0/security/incidents"
  advancedHunting := host ++ "/v1.0/security/runHuntingQuery"
  machines := host ++ "/api/machines"
  simulations := host ++ "/v1.0/security/attackSimulation/simulations"
  simulationReport := host ++ "/v1.0/security/attackSimulation/simulations/{}/report/overview"
  api := .graphApi

private def loginCommercial : String := "https://login.microsoftonline.com/{}/oauth2/token"

private def loginGov : String := "https://login.microsoftonline.us/{}/oauth2/token"

private def apiSecurity : String := "https://api.security.microsoft.com"

/-- `commercial-graph-api`, in both tables. -/
def commercialGraphApi : ApiUrls :=
  graphApiUrls "https://login.microsoftonline.com/{}/oauth2/v2.0/token"
    "https://graph.microsoft.com"

/-- `gcc-high-graph-api`, in both tables. -/
def gccHighGraphApi : ApiUrls :=
  graphApiUrls "https://login.microsoftonline.us/{}/oauth2/v2.0/token" "https://graph.microsoft.us"

/-- `EnvironmentSpecificUrls.urls_by_environment`. -/
def urlsByEnvironment : Dict ApiUrls :=
  [("default", api365Urls "https://login.windows.net/{}/oauth2/token" apiSecurity apiSecurity
      apiSecurity),
    ("commercial", api365Urls loginCommercial apiSecurity apiSecurity apiSecurity),
    ("gcc", api365Urls loginCommercial "https://api-gcc.security.microsoft.us"
      "https://api-gcc.security.microsoft.us" "https://api-gcc.security.microsoft.us"),
    ("gcc-high", api365Urls loginGov "https://api-gov.security.microsoft.us"
      "https://api-gov.security.microsoft.us" "https://api-gov.security.microsoft.us"),
    ("commercial-graph-api", commercialGraphApi),
    ("gcc-high-graph-api", gccHighGraphApi)]

/-- `EnvironmentSpecificUrls.urls_by_location`. Only the alerts URL follows the location. -/
def urlsByLocation : Dict ApiUrls :=
  [("api.securitycenter.microsoft.com", api365Urls loginCommercial
      "https://api.securitycenter.microsoft.com" "https://api.securitycenter.microsoft.com"
      apiSecurity),
    ("api-us.securitycenter.microsoft.com", api365Urls loginCommercial
      "https://api.securitycenter.microsoft.com" "https://api-us.securitycenter.microsoft.com"
      apiSecurity),
    ("api-eu.securitycenter.microsoft.com", api365Urls loginCommercial
      "https://api.securitycenter.microsoft.com" "https://api-eu.securitycenter.microsoft.com"
      apiSecurity),
    ("api-uk.securitycenter.microsoft.com", api365Urls loginCommercial
      "https://api.securitycenter.microsoft.com" "https://api-uk.securitycenter.microsoft.com"
      apiSecurity),
    ("api-gov.securitycenter.microsoft.us", api365Urls loginGov
      "https://api-gov.securitycenter.microsoft.us" "https://api-gov.securitycenter.microsoft.us"
      apiSecurity),
    ("api-gcc.securitycenter.microsoft.us", api365Urls loginCommercial
      "https://api-gcc.securitycenter.microsoft.us" "https://api-gcc.securitycenter.microsoft.us"
      apiSecurity),
    ("commercial-graph-api", commercialGraphApi),
    ("gcc-high-graph-api", gccHighGraphApi)]

/-! ## Resolution -/

/-- `template.format(arg)`, for a template with one `{}`. -/
def formatOne (template arg : String) : String :=
  String.ofList (go template.toList)
where
  /-- The characters after substitution; what follows the placeholder is literal. -/
  go : List Char → List Char
    | '\x7b' :: '\x7d' :: rest => arg.toList ++ rest
    | c :: rest => c :: go rest
    | [] => []

/-- `_inject_tenant_id`. -/
def injectTenantId (urls : ApiUrls) (tenantId : String) : ApiUrls :=
  { urls with authorization := formatOne urls.authorization tenantId }

/-- What the two lookups share: both parameters are required, and so is the table entry. The
parameter names and the texts of the errors are each lookup's own. -/
def getUrlsBy (table : Dict ApiUrls) (keyMsg keyName tenantMsg tenantName : String)
    (missing : String → String) (key tenantId : Option String) : Except PyError ApiUrls := do
  let key ← required nonemptyStr? key keyMsg keyName
  let tenantId ← required nonemptyStr? tenantId tenantMsg tenantName
  let urls ← required id (table.get key) (missing key) ""
  return injectTenantId urls tenantId

/-- `get_urls_by_environment`. -/
def getUrlsByEnvironment : Option String → Option String → Except PyError ApiUrls :=
  getUrlsBy urlsByEnvironment "environment param is missing" "" "tenant_id is missing" ""
    fun environment ↦ "Login URL not found for environment '" ++ environment ++ "'"

/-- `get_urls_by_location`. -/
def getUrlsByLocation : Option String → Option String → Except PyError ApiUrls :=
  getUrlsBy urlsByLocation requiredDefaultMsg "location" requiredDefaultMsg "tenant_id"
    fun location ↦ "Login URL not found for the location " ++ location

theorem bind_get_eq_some_iff {table : Dict ApiUrls} {key : Option String} {u : ApiUrls}
    (hempty : table.get "" = none) : key.bind table.get = some u ↔
      ∃ k, nonemptyStr? key = some k ∧ table.get k = some u := by
  rw [Option.bind_eq_some_iff]
  refine exists_congr fun k ↦ and_congr_left fun hu ↦ ?_
  have hne : k ≠ "" := by
    rintro rfl
    rw [hempty] at hu
    cases hu
  rw [nonemptyStr?_eq_some_iff]
  exact (and_iff_left hne).symm

/-- Resolution succeeds exactly for a key of the table and a tenant. -/
theorem getUrlsBy_eq_ok_iff {table : Dict ApiUrls} {keyMsg keyName tenantMsg tenantName : String}
    {missing : String → String} {key tenantId : Option String} {urls : ApiUrls}
    (hempty : table.get "" = none) :
    getUrlsBy table keyMsg keyName tenantMsg tenantName missing key tenantId = .ok urls ↔
      ∃ t u, nonemptyStr? tenantId = some t ∧ key.bind table.get = some u ∧
        injectTenantId u t = urls := by
  simp only [getUrlsBy, bind_eq_ok_iff, required_eq_ok_iff, id, pure, Except.pure,
    Except.ok.injEq, bind_get_eq_some_iff hempty]
  constructor
  · rintro ⟨k, hk, t, ht, u, hu, hurls⟩
    exact ⟨t, u, ht, ⟨k, hk, hu⟩, hurls⟩
  · rintro ⟨t, u, ht, ⟨k, hk, hu⟩, hurls⟩
    exact ⟨k, hk, t, ht, u, hu, hurls⟩

section Resolution

variable {key tenantId : Option String} {urls : ApiUrls}

theorem getUrlsByEnvironment_eq_ok_iff : getUrlsByEnvironment key tenantId = .ok urls ↔
    ∃ t u, nonemptyStr? tenantId = some t ∧ key.bind urlsByEnvironment.get = some u ∧
      injectTenantId u t = urls := getUrlsBy_eq_ok_iff rfl

theorem getUrlsByLocation_eq_ok_iff : getUrlsByLocation key tenantId = .ok urls ↔
    ∃ t u, nonemptyStr? tenantId = some t ∧ key.bind urlsByLocation.get = some u ∧
      injectTenantId u t = urls := getUrlsBy_eq_ok_iff rfl

theorem getUrlsByEnvironment_raisesException (environment tenantId : Option String) :
    RaisesException (getUrlsByEnvironment environment tenantId) :=
  required_raisesException.bind fun _ ↦ required_raisesException.bind fun _ ↦
    required_raisesException.bind fun _ ↦ raisesException_ok _

end Resolution

/-! ## Login payload and filters -/

/-- `get_login_payload`. -/
def getLoginPayload (api : Api) (clientId : Option String) (resourceUrl : String)
    (clientSecret : Option String) : Dict (Option String) :=
  [(match api with
      | .api365 => "resource"
      | .graphApi => "scope", some resourceUrl),
    ("grant_type", some "client_credentials"),
    ("client_id", clientId),
    ("client_secret", clientSecret)]

/-- A `$filter` for records updated after a date. -/
structure UpdateFilter where
  /-- Query text in front of the filter. -/
  before : String
  /-- The field that is compared. -/
  field : String

/-- The query string, for the date to compare with. -/
def UpdateFilter.text (f : UpdateFilter) (queryDate : String) : String :=
  f.before ++ "$filter=" ++ f.field ++ "+gt+" ++ queryDate

theorem UpdateFilter.text_injective (f : UpdateFilter) : Function.Injective f.text := by
  intro a b h
  have h' := congrArg String.toList h
  simp only [text, String.toList_append, List.append_cancel_left_eq] at h'
  exact String.toList_injective h'

/-- `get_incidents_filter`. -/
def getIncidentsFilter : Api → UpdateFilter
  | .api365 => ⟨"?", "lastUpdateTime"⟩
  | .graphApi => ⟨"?$expand=alerts&", "lastUpdateDateTime"⟩

/-- `get_alerts_filter`. -/
def getAlertsFilter : Api → UpdateFilter
  | .api365 => ⟨"?$expand=evidence&", "lastUpdateTime"⟩
  | .graphApi => ⟨"?", "lastUpdateDateTime"⟩

/-- `get_machines_filter`. -/
def getMachinesFilter : Api → UpdateFilter
  | .api365 => ⟨"?", "lastSeen"⟩
  | .graphApi => ⟨"?", "lastUpdateDateTime"⟩

/-- `get_simulations_filter`. -/
def getSimulationsFilter (api : Api) (queryDate endDate : String) : Except PyError String :=
  match api with
  | .graphApi => .ok ("?$filter=completionDateTime+gt+" ++ queryDate ++
      " and completionDateTime+lt+" ++ endDate)
  | .api365 => .error (.taExecution "Unsupported API" 0)

end MsSecurity
