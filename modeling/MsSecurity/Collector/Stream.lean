import MsSecurity.Api.Account
import MsSecurity.Python.Effect

/-!
# The incidents, alerts and machines collectors

One pass of `stream_events` over one input. The three collectors share their frame: find the date to
query from, ask the API for the records updated after it, write each record to the index while
folding the largest update time seen, and store that as the next date. They differ in how they
resolve URLs, in the fields and the filter they use, and in what a record becomes: an incident is
split into its alerts and the rest.

`World` is what outlives a pass. Everything outside the add-on answers through `Services`, and every
answer may be a failure, so that a pass can stop at any of its steps. A failed step leaves the
`World` as it is, except that an update of the checkpoint may fail after it took effect.
-/

namespace MsSecurity

/-! ## Data -/

/-- An `smi.Event`. The payload is kept as the value `json.dumps` is given. -/
structure Event where
  data : Json
  index : String
  source : String
  sourcetype : String

/-- The parameters of an input, `start_date` apart, which the add-on itself writes. -/
structure InputItem where
  azureAppAccount : String
  tenantId : Option String
  environment : Option String
  location : Option String
  index : String
  sourcetype : String

/-- The arguments of `get_atp_alerts_odata`. -/
structure OdataRequest where
  accessToken : Json
  url : String
  userAgent : String

/-- How an update of the checkpoint collection ends. -/
inductive UpdateAnswer
  | stored
  /-- It raises, and the document was written or not. -/
  | raised (e : PyError) (written : Bool)
  deriving DecidableEq

/-- What a pass leaves behind for the next one, for one input. -/
structure World where
  /-- The document under the input's checkpoint key. -/
  checkpoint : Option String
  /-- The `start_date` of the input's stanza. -/
  startDate : Option String
  /-- The events written to the index, oldest first. -/
  index : List Event
  /-- The records the API has handed out. -/
  served : List Json

/-- The answers one pass gets; `none` where a step does not fail. -/
structure Services where
  accountDetails : String → Except PyError Account
  readCheckpoint : Option PyError
  /-- Thirty days ago, as `strftime` writes it. -/
  defaultStartDate : String
  updateConf : Option PyError
  accessToken : TokenRequest → Except PyError Json
  currentVersion : Option String
  odata : OdataRequest → Except PyError (List Json)
  writeEvent : List Event → Event → Option PyError
  handlerRead : Option PyError
  handlerUpdate : UpdateAnswer

abbrev Collect := EStateM PyError World

/-! ## Steps -/

/-- `s` if it ends in `Z`, else `s` with a `Z` appended. -/
def ensureZ (s : String) : String := if s.toList.getLast? = some 'Z' then s else s ++ "Z"

/-- `get_start_date`. -/
def getStartDate (services : Services) : Collect String := do
  attempt services.readCheckpoint
  match nonemptyStr? (← get).checkpoint with
  | some dateFromCheckpoint => return dateFromCheckpoint
  | none =>
    match nonemptyStr? (← get).startDate with
    | some startDate => return ensureZ startDate
    | none =>
      attempt services.updateConf
      modify fun world ↦ { world with startDate := some services.defaultStartDate }
      return services.defaultStartDate

/-- `get_access_token` as the collectors call it: an exception leaves the token of the input before
in place. -/
def acquireToken (services : Services) (request : TokenRequest) (prior : Json) : Collect Json :=
  exceptException (liftExcept (services.accessToken request)) (pure prior)

/-- `get_atp_alerts_odata`. -/
def getAtpAlertsOdata (services : Services) (request : OdataRequest) : Collect (List Json) := do
  let records ← liftExcept (services.odata request)
  modify fun world ↦ { world with served := world.served ++ records }
  return records

/-- `ew.write_event`. -/
def writeEvent (services : Services) (event : Event) : Collect Unit := do
  attempt (services.writeEvent (← get).index event)
  modify fun world ↦ { world with index := world.index ++ [event] }

/-- Events written one by one. -/
def writeEvents (services : Services) : List Event → Collect Unit
  | [] => pure ()
  | event :: events => do
    writeEvent services event
    writeEvents services events

/-- `checkpoint_collection.update`. -/
def updateCheckpoint (answer : UpdateAnswer) (maxDate : String) : Collect Unit :=
  match answer with
  | .stored => modify fun world ↦ { world with checkpoint := some maxDate }
  | .raised e written => do
    modify fun world ↦ if written then { world with checkpoint := some maxDate } else world
    throw e

/-- `checkpoint_handler`: both calls may fail, and neither failure is passed on. -/
def checkpointHandler (services : Services) (maxDate : String) : Collect Unit := do
  let readable ← exceptException (do attempt services.handlerRead; return true) (pure false)
  if readable then
    exceptException (updateCheckpoint services.handlerUpdate maxDate) (pure ())

/-! ## The URLs of an input -/

/-- The environment, the tenant and the URLs of an incidents input. -/
def InputItem.urlsOfEnvironment (item : InputItem) (tenantId : Option String) :
    Except PyError (String × String × ApiUrls) := do
  let environment ← required nonemptyStr? item.environment
    "Required input parameter 'environment' missing" ""
  let tenantId ← required nonemptyStr? tenantId "Required input parameter 'tenant_id' missing" ""
  let urls ← getUrlsByEnvironment (some environment) (some tenantId)
  return (environment, tenantId, urls)

/-- `input_item["location"]`. -/
def InputItem.getLocation (item : InputItem) : Except PyError String :=
  match item.location with
  | some location => .ok location
  | none => .error (.keyError "location")

/-- The default of the location field. -/
def generalLocation : String := "api.securitycenter.windows.com"

/-- The general location is replaced by the host it stands for. -/
def relocate (location : String) : String :=
  if location = generalLocation then "api.securitycenter.microsoft.com" else location

/-- The URLs of an alerts or machines input. -/
def InputItem.urlsOfLocation (item : InputItem) (tenantId : Option String) :
    Except PyError ApiUrls := do
  let location ← item.getLocation
  getUrlsByLocation (some (relocate location)) tenantId

theorem InputItem.urlsOfEnvironment_eq_ok_iff {item : InputItem} {tenantId : Option String}
    {environment t : String} {urls : ApiUrls} :
    item.urlsOfEnvironment tenantId = .ok (environment, t, urls) ↔
      nonemptyStr? item.environment = some environment ∧ nonemptyStr? tenantId = some t ∧
        ∃ u, urlsByEnvironment.get environment = some u ∧ injectTenantId u t = urls := by
  simp only [urlsOfEnvironment, bind_eq_ok_iff, required_eq_ok_iff, getUrlsByEnvironment_eq_ok_iff,
    pure, Except.pure, Except.ok.injEq, Prod.mk.injEq, Option.bind_some]
  constructor
  · rintro ⟨k, hk, t', ht', _, ⟨t'', u, ht'', hu, rfl⟩, rfl, rfl, rfl⟩
    obtain rfl := Option.some.inj (nonemptyStr?_eq_some_iff.mp ht'').1
    exact ⟨hk, ht', u, hu, rfl⟩
  · rintro ⟨hk, ht, u, hu, rfl⟩
    have ht' := nonemptyStr?_eq_some_iff.mpr ⟨rfl, (nonemptyStr?_eq_some_iff.mp ht).2⟩
    exact ⟨environment, hk, t, ht, _, ⟨t, u, ht', hu, rfl⟩, rfl, rfl, rfl⟩

theorem InputItem.urlsOfLocation_eq_ok_iff {item : InputItem} {tenantId : Option String}
    {urls : ApiUrls} : item.urlsOfLocation tenantId = .ok urls ↔
      ∃ t u, nonemptyStr? tenantId = some t ∧
        (item.location.bind fun l ↦ urlsByLocation.get (relocate l)) = some u ∧
        injectTenantId u t = urls := by
  rw [urlsOfLocation, getLocation]
  cases item.location with
  | none =>
    refine iff_of_false (fun h ↦ nomatch h) ?_
    rintro ⟨t, u, -, h, -⟩
    cases h
  | some location => exact getUrlsByLocation_eq_ok_iff

/-! ## The loop over records -/

/-- The three collectors. -/
inductive Collector
  | incidents
  | alerts
  | machines
  deriving DecidableEq

namespace Collector

/-- The key read when a record has no `lastUpdateDateTime`. -/
def otherField : Collector → String
  | incidents => "lastUpdateTime"
  | alerts => "lastUpdateTime"
  | machines => "lastSeen"

/-- The `$filter` of the request. -/
def filter : Collector → Api → UpdateFilter
  | incidents => getIncidentsFilter
  | alerts => getAlertsFilter
  | machines => getMachinesFilter

/-- The URL the filter is appended to. -/
def requestUrl : Collector → ApiUrls → String
  | incidents => ApiUrls.incidents
  | alerts => ApiUrls.alerts
  | machines => ApiUrls.machines

def userAgent (c : Collector) (currentVersion : Option String) : String :=
  (match c with
    | incidents => "M365DPartner-Splunk-MicrosoftSecurityAddOn/"
    | alerts => "MdePartner-Splunk-MicrosoftSecurityAddOn/"
    | machines => "MdePartner-Splunk-MicrosoftSecurityAddOn/") ++ currentVersion.getD "None"

/-- `record.get("lastUpdateDateTime") or record.get(other) or ""`. -/
def lastUpdate (c : Collector) (record : Json.Object) : Json :=
  ((record.getD "lastUpdateDateTime").or (record.getD c.otherField)).or (.str "")

end Collector

/-- `if last_update > max_date: max_date = last_update`. -/
def laterDate (lastUpdate : Json) (maxDate : String) : Except PyError String :=
  match lastUpdate with
  | .str s => .ok (if maxDate < s then s else maxDate)
  | _ => .error .typeError

/-- An alert of an incident, as an event of its own. -/
def incidentAlertEvent (item : InputItem) (tenantId : String) (alert : Json) : Event where
  data := alert
  index := item.index
  source := "microsoft_365_defender_endpoint_incidents:" ++ tenantId
  sourcetype := item.sourcetype ++ ":alerts"

/-- An incident without its alerts. -/
def incidentEvent (item : InputItem) (tenantId : String) (incident : Json.Object) : Event where
  data := .obj (incident.del "alerts")
  index := item.index
  source := "microsoft_365_defender_endpoint_incidents:" ++ tenantId
  sourcetype := item.sourcetype

def alertEvent (item : InputItem) (alert : Json.Object) : Event where
  data := .obj alert
  index := item.index
  source := "microsoft_defender_endpoint_atp_alerts"
  sourcetype := "ms:defender:atp:alerts"

def machineEvent (item : InputItem) (machine : Json.Object) : Event where
  data := .obj machine
  index := item.index
  source := "microsoft_defender_endpoint_machines"
  sourcetype := "ms:defender:machines"

/-- The end of the loop body: what is written for one record. -/
def writeRecord (services : Services) (c : Collector) (item : InputItem) (tenantId : String)
    (record : Json.Object) : Collect Unit :=
  match c with
  | .incidents => do
    let alerts ← liftExcept (record.getItem "alerts")
    let alerts ← liftExcept alerts.iter
    writeEvents services (alerts.map (incidentAlertEvent item tenantId))
    writeEvent services (incidentEvent item tenantId record)
  | .alerts => writeEvent services (alertEvent item record)
  | .machines => writeEvent services (machineEvent item record)

/-- `for record in records: ...`, for the largest update time. -/
def ingest (services : Services) (c : Collector) (item : InputItem) (tenantId : String) :
    List Json → String → Collect String
  | [], maxDate => pure maxDate
  | record :: records, maxDate => do
    let record ← liftExcept (asObject record)
    let lastUpdate ← liftExcept (required Json.truthy? (c.lastUpdate record)
      "Field denoting last update not found in the API response" "")
    let maxDate ← liftExcept (laterDate lastUpdate maxDate)
    writeRecord services c item tenantId record
    ingest services c item tenantId records maxDate

/-! ## One pass -/

/-- The request for the records updated after a date. -/
def Collector.requestSince (c : Collector) (currentVersion : Option String) (urls : ApiUrls)
    (accessToken : Json) (queryDate : String) : OdataRequest where
  accessToken := accessToken
  url := c.requestUrl urls ++ (c.filter urls.api).text queryDate
  userAgent := c.userAgent currentVersion

/-- The part of a pass that follows `query_date`: request, loop, checkpoint. -/
def collectSince (services : Services) (c : Collector) (item : InputItem) (tenantId : String)
    (urls : ApiUrls) (accessToken : Json) (queryDate : String) : Collect Unit := do
  let records ← getAtpAlertsOdata services
    (c.requestSince services.currentVersion urls accessToken queryDate)
  let maxDate ← ingest services c item tenantId records queryDate
  checkpointHandler services maxDate

def tokenFailure : PyError := .runtimeError
  "Unable to obtain access token. Please check the Application ID, Client Secret, and Tenant ID"

def tokenRequest (account : Account) (urls : ApiUrls) (environment : Option String)
    (addDefault : Bool) : TokenRequest where
  clientId := account.username
  clientSecret := account.password
  urls := urls
  useDelegatedPermissions := account.useDelegatedPermissions
  delegatedAccName := account.delegatedAccName
  environment := environment
  addDefault := addDefault

/-- `stream_events` of the incidents collector, for one input; the result is `access_token`. -/
def streamIncidents (services : Services) (item : InputItem) (prior : Json) : Collect Json := do
  let account ← liftExcept (services.accountDetails item.azureAppAccount)
  let queryDate ← getStartDate services
  let tenantId := orStr item.tenantId account.tenantId
  let (environment, tenantId, urls) ← liftExcept (item.urlsOfEnvironment tenantId)
  let accessToken ← acquireToken services (tokenRequest account urls (some environment) false) prior
  if accessToken.truthy then
    collectSince services .incidents item tenantId urls accessToken queryDate
    return accessToken
  else throw tokenFailure

/-- `stream_events` of the alerts and of the machines collector, for one input. -/
def streamByLocation (c : Collector) (addDefault : Bool) (services : Services) (item : InputItem)
    (prior : Json) : Collect Json := do
  let account ← liftExcept (services.accountDetails item.azureAppAccount)
  let tenantId := orStr item.tenantId account.tenantId
  let urls ← liftExcept (item.urlsOfLocation tenantId)
  let accessToken ← acquireToken services (tokenRequest account urls none addDefault) prior
  if accessToken.truthy then
    let queryDate ← getStartDate services
    collectSince services c item (tenantId.getD "") urls accessToken queryDate
    return accessToken
  else throw tokenFailure

def streamAlerts : Services → InputItem → Json → Collect Json := streamByLocation .alerts false

def streamMachines : Services → InputItem → Json → Collect Json := streamByLocation .machines true

/-- One pass of a collector over one input. -/
def Collector.stream : Collector → Services → InputItem → Json → Collect Json
  | incidents => streamIncidents
  | alerts => streamAlerts
  | machines => streamMachines

end MsSecurity
