import MsSecurity.AlertAction.AdvancedHunting
import MsSecurity.Collector.Odata
import MsSecurity.Collector.Stream
import MsSecurity.Transition.Relational

/-!
# The requests of the collectors

The loop body of `stream_events`, for the five collectors that ask an API for records. The state
keeps the requests that were made, each with its token, next to the `World`. That this log changes
nothing for the three collectors of `Collector.stream` is `Collector.agree_stream`.

What the five have in common is the middle, `withToken`: ask for a token, and if there is one, use
it.
-/

namespace MsSecurity

namespace Requests

/-! ## Answers and state -/

/-- A query for advanced hunting, posted. -/
structure HuntRequest extends Odata.PageRequest where
  query : String

/-- What an iteration gets from outside; `none` where a step does not fail. -/
structure IterationServices extends LoginServices where
  /-- `requests.get`, after the requests of the iteration so far. -/
  get : List Odata.PageRequest → Odata.PageRequest → Odata.PageAnswer
  /-- How many nested calls the interpreter allows. -/
  depth : ℕ
  /-- `requests.post`, and the parsed content. -/
  hunt : HuntRequest → Except PyError Json
  readCheckpoint : Option PyError
  defaultStartDate : String
  updateConf : Option PyError
  /-- Now, as `strftime` writes it. -/
  today : String
  writeEvent : List Event → Event → Option PyError
  handlerRead : Option PyError
  handlerUpdate : UpdateAnswer

/-- An input stanza. -/
structure Stanza extends InputItem where
  query : Option String

/-- The `World` of an input, and the requests to the API. -/
structure IterationState where
  world : World
  pages : List Odata.PageRequest
  hunts : List HuntRequest

/-- The tokens that were sent. -/
def IterationState.tokens (s : IterationState) : List Json :=
  s.pages.map Odata.PageRequest.accessToken ++ s.hunts.map fun request ↦ request.accessToken

/-- The state before any request. -/
def IterationState.initial (world : World) : IterationState := ⟨world, [], []⟩

abbrev Iterate := EStateM PyError IterationState

variable {α : Type}

/-- A step of a pass. -/
def onWorld (x : Collect α) : Iterate α :=
  zoom IterationState.world (fun world s ↦ { s with world := world }) id x

/-- Requests for pages. -/
def onPages (x : Odata.Paging α) : Iterate α :=
  zoom IterationState.pages (fun pages s ↦ { s with pages := pages }) Odata.OdataError.toPyError x

namespace IterationServices

variable (services : IterationServices)

def odata : Odata.OdataServices := ⟨services.proxy, services.get⟩

/-- `get_atp_alerts_odata`, as a collector calls it. -/
def getPages (request : OdataRequest) : Odata.Paging (List Json) :=
  Odata.getAtpAlertsOdata services.odata request.accessToken services.depth request.url
    (some request.userAgent)

/-- The answers of one pass. -/
def toServices : Services where
  accountDetails := getAccountDetails services.accountConf
  readCheckpoint := services.readCheckpoint
  defaultStartDate := services.defaultStartDate
  updateConf := services.updateConf
  accessToken := getAccessToken services.toLoginServices
  currentVersion := services.currentVersion
  odata request := (outcome (services.getPages request) []).mapError Odata.OdataError.toPyError
  writeEvent := services.writeEvent
  handlerRead := services.handlerRead
  handlerUpdate := services.handlerUpdate

end IterationServices

variable (services : IterationServices)

/-! ## The token -/

/-- The middle of the loop body. -/
def withToken (request : TokenRequest) (prior : Json) (failure : PyError)
    (use : Json → Iterate Unit) : Iterate Json := do
  let accessToken ← onWorld (acquireToken services.toServices request prior)
  if accessToken.truthy then
    use accessToken
    return accessToken
  else throw failure

/-! ## Incidents, alerts and machines -/

/-- `get_atp_alerts_odata`. -/
def getRecords (request : OdataRequest) : Iterate (List Json) := do
  let records ← onPages (services.getPages request)
  onWorld (modify fun world ↦ { world with served := world.served ++ records })
  return records

/-- What a token is used for: request, loop, checkpoint. -/
def collectSince (c : Collector) (item : InputItem) (tenantId : String) (urls : ApiUrls)
    (accessToken : Json) (queryDate : String) : Iterate Unit := do
  let records ← getRecords services
    (c.requestSince services.currentVersion urls accessToken queryDate)
  onWorld do
    let maxDate ← ingest services.toServices c item tenantId records queryDate
    checkpointHandler services.toServices maxDate

/-- The incidents collector. -/
def streamIncidents (item : InputItem) (prior : Json) : Iterate Json := do
  let account ← liftExcept (getAccountDetails services.accountConf item.azureAppAccount)
  let queryDate ← onWorld (getStartDate services.toServices)
  let (environment, tenantId, urls) ←
    liftExcept (item.urlsOfEnvironment (orStr item.tenantId account.tenantId))
  withToken services (tokenRequest account urls (some environment) false) prior tokenFailure
    fun accessToken ↦ collectSince services .incidents item tenantId urls accessToken queryDate

/-- The alerts and the machines collector. -/
def streamByLocation (c : Collector) (addDefault : Bool) (item : InputItem) (prior : Json) :
    Iterate Json := do
  let account ← liftExcept (getAccountDetails services.accountConf item.azureAppAccount)
  let tenantId := orStr item.tenantId account.tenantId
  let urls ← liftExcept (item.urlsOfLocation tenantId)
  withToken services (tokenRequest account urls none addDefault) prior tokenFailure
    fun accessToken ↦ do
      let queryDate ← onWorld (getStartDate services.toServices)
      collectSince services c item (tenantId.getD "") urls accessToken queryDate

/-! ## Advanced hunting -/

def huntingTokenFailure : PyError := .runtimeError
  ("Unable to obtain access token. Please check the delegated sign-in status, " ++
    "Application ID, Client Secret, and Tenant ID")

/-- The `User-Agent` of the collectors for Microsoft 365. -/
def userAgent : String :=
  "M365DPartner-Splunk-MicrosoftSecurityAddOn/" ++ services.currentVersion.getD "None"

/-- `_hunt_by_query`. -/
def huntByQuery (query : String) (accessToken : Json) (urls : ApiUrls) (environment : String) :
    Iterate Json := do
  let proxies ← liftExcept services.proxy
  let request : HuntRequest := {
    url := urls.advancedHunting
    accessToken := accessToken
    userAgent := some (userAgent services)
    proxies := proxies
    query := query }
  modify fun s ↦ { s with hunts := s.hunts ++ [request] }
  let response ← liftExcept <| match services.hunt request with
    | .error (.httpError status) => .error (.taExecutionFrom (.httpError status) 1)
    | answer => answer
  let response ← liftExcept (asObject response)
  return (response.get (AdvancedHuntingHelper.resultsKey environment)).getD (.arr [])

def huntingEvent (item : InputItem) (tenantId : String) (result : Json) : Event where
  data := result
  index := item.index
  source := "microsoft_365_defender_advanced_hunting:" ++ tenantId
  sourcetype := item.sourcetype

/-- What the hunting collector reads of a stanza, in its order. -/
def huntingParams (stanza : Stanza) (tenantId : Option String) :
    Except PyError (String × String × String × ApiUrls) := do
  let tenantId ← required nonemptyStr? tenantId "Required input parameter 'tenant_id' missing" ""
  let environment ← required nonemptyStr? stanza.environment
    "Required input parameter 'environment' missing" ""
  let query ← required nonemptyStr? stanza.query "Required input parameter 'query' missing" ""
  let urls ← getUrlsByEnvironment (some environment) (some tenantId)
  return (tenantId, environment, query, urls)

/-- The advanced hunting collector. -/
def streamAdvancedHunting (stanza : Stanza) (prior : Json) : Iterate Json := do
  let account ← liftExcept (getAccountDetails services.accountConf stanza.azureAppAccount)
  let (tenantId, environment, query, urls) ←
    liftExcept (huntingParams stanza (orStr stanza.tenantId account.tenantId))
  withToken services (tokenRequest account urls (some environment) true) prior huntingTokenFailure
    fun accessToken ↦ do
      let results ← huntByQuery services query accessToken urls environment
      let results ← liftExcept results.iter
      onWorld (writeEvents services.toServices
        (results.map (huntingEvent stanza.toInputItem tenantId)))

/-! ## Simulations -/

/-- `d[key] = v`. -/
def setItem (d : Json.Object) (key : String) (v : Json) : Json.Object :=
  if d.any fun p ↦ p.1 = key then d.map fun p ↦ if p.1 = key then (key, v) else p
  else d ++ [(key, v)]

/-- A key as `json.dumps` writes it; a list or a dictionary cannot be one. -/
def keyText : Json → Except PyError String
  | .str s => .ok s
  | .null => .ok "null"
  | .bool b => .ok (if b then "true" else "false")
  | .arr _ => .error .typeError
  | .obj _ => .error .typeError
  | v => .ok (services.str v)

/-- An item of what `d.update` is given, if that is not a dictionary. -/
def pairOf (v : Json) : Except PyError (String × Json) := do
  match ← v.iter with
  | [key, value] => return (← keyText services key, value)
  | _ => throw (.valueError "")

/-- `d.update(v)`. -/
def update (d : Json.Object) (v : Json) : Except PyError Json.Object := do
  let pairs ← match v with
    | .obj fields => pure fields
    | v => do (← v.iter).mapM (pairOf services)
  return pairs.foldl (fun d p ↦ setItem d p.1 p.2) d

/-- `get_simulation_report`. -/
def getSimulationReport (accessToken : Json) (url : String) : Odata.Paging Json := do
  let proxies ← Odata.raising services.proxy
  tryCatch (Odata.getPage services.odata ⟨url, accessToken, some (userAgent services), proxies⟩)
    fun e ↦ throw (Odata.reraise e)

/-- `format(v)`. -/
def formatArg : Json → String
  | .str s => s
  | v => services.str v

def simulationEvent (item : InputItem) (tenantId : String) (simulation : Json.Object) : Event where
  data := .obj simulation
  index := item.index
  source := "microsoft_defender_endpoint_simulations:" ++ tenantId
  sourcetype := item.sourcetype

/-- `for simulation in simulations: ...`, for the largest completion time. -/
def ingestSimulations (item : InputItem) (tenantId : String) (urls : ApiUrls)
    (accessToken : Json) : List Json → String → Iterate String
  | [], maxDate => pure maxDate
  | simulation :: simulations, maxDate => do
    let simulation ← liftExcept (asObject simulation)
    let simulationId ← liftExcept (required Json.truthy? (simulation.getD "id")
      "Field denoting simulation id not found in the API response" "")
    let report ← onPages (getSimulationReport services accessToken
      (formatOne urls.simulationReport (formatArg services simulationId)))
    let simulation ← liftExcept (update services simulation report)
    onWorld (writeEvent services.toServices (simulationEvent item tenantId simulation))
    let completionDateTime ← liftExcept (required Json.truthy?
      (simulation.getD "completionDateTime")
      "Field denoting simulation completionDateTime not found in the API response" "")
    let maxDate ← liftExcept (laterDate completionDateTime maxDate)
    ingestSimulations item tenantId urls accessToken simulations maxDate

/-- A token is asked for without what the account says of delegated permissions. -/
def clientTokenRequest (account : Account) (urls : ApiUrls) : TokenRequest where
  clientId := account.username
  clientSecret := account.password
  urls := urls
  useDelegatedPermissions := false
  delegatedAccName := none
  environment := none
  addDefault := false

/-- The simulations collector, whose inputs have no tenant of their own. -/
def streamSimulations (item : InputItem) (prior : Json) : Iterate Json := do
  let account ← liftExcept (getAccountDetails services.accountConf item.azureAppAccount)
  let queryDate ← onWorld (getStartDate services.toServices)
  let (_, tenantId, urls) ← liftExcept (item.urlsOfEnvironment account.tenantId)
  withToken services (clientTokenRequest account urls) prior tokenFailure fun accessToken ↦ do
    let filterCriteria ←
      liftExcept (getSimulationsFilter urls.api queryDate services.today)
    let simulations ← getRecords services
      ⟨accessToken, urls.simulations ++ filterCriteria, userAgent services⟩
    let maxDate ← ingestSimulations services item tenantId urls accessToken simulations queryDate
    onWorld (checkpointHandler services.toServices maxDate)

/-! ## The loop body -/

/-- The collectors that ask an API for records. -/
inductive RestCollector
  | updates (c : Collector)
  | advancedHunting
  | simulations
  deriving DecidableEq

/-- The loop body of `stream_events`, whose result is `access_token`. -/
def RestCollector.stream (c : RestCollector) (stanza : Stanza) (prior : Json) : Iterate Json :=
  match c with
  | .updates .incidents => streamIncidents services stanza.toInputItem prior
  | .updates .alerts => streamByLocation services .alerts false stanza.toInputItem prior
  | .updates .machines => streamByLocation services .machines true stanza.toInputItem prior
  | .advancedHunting => streamAdvancedHunting services stanza prior
  | .simulations => streamSimulations services stanza.toInputItem prior

/-! ## The log changes nothing -/

/-- The same world, before a request. -/
def Fresh (s : IterationState) (w : World) : Prop := s.world = w ∧ s.pages = []

def SameWorld (s : IterationState) (w : World) : Prop := s.world = w

section Agree

variable {services : IterationServices}

theorem Fresh.sameWorld {s : IterationState} {w : World} (h : Fresh s w) : SameWorld s w := h.1

theorem agree_onWorld_fresh (x : Collect α) : Agree Fresh Fresh (onWorld x) x :=
  agree_zoom (fun _ _ h ↦ h.1) (fun _ _ _ h ↦ ⟨rfl, h.2⟩) x

theorem agree_onWorld (x : Collect α) : Agree SameWorld SameWorld (onWorld x) x :=
  agree_zoom (fun _ _ h ↦ h) (fun _ _ _ _ ↦ rfl) x

theorem agree_getRecords (request : OdataRequest) : Agree Fresh SameWorld
    (getRecords services request) (getAtpAlertsOdata services.toServices request) := by
  have hpages : Agree Fresh SameWorld (onPages (services.getPages request))
      (liftExcept (services.toServices.odata request)) := by
    rintro s _ ⟨rfl, hpages⟩
    rw [onPages, ends_zoom, hpages]
    refine Ends.intro (fun records pages h ↦ ?_) fun e pages h ↦ ?_
    · rw [ends_liftExcept]
      exact ⟨by simp only [IterationServices.toServices, outcome, h], rfl⟩
    · rw [ends_liftExcept]
      exact ⟨by simp only [IterationServices.toServices, outcome, h], rfl⟩
  exact hpages.bind (fun _ _ ↦ id) fun records ↦
    (agree_onWorld _).bind (fun _ _ ↦ id) fun _ ↦ agree_pure (fun _ _ ↦ id) records

theorem agree_collectSince (c : Collector) (item : InputItem) (tenantId : String) (urls : ApiUrls)
    (accessToken : Json) (queryDate : String) : Agree Fresh SameWorld
      (collectSince services c item tenantId urls accessToken queryDate)
      (MsSecurity.collectSince services.toServices c item tenantId urls accessToken queryDate) :=
  (agree_getRecords _).bind (fun _ _ ↦ id) fun _ ↦ agree_onWorld _

theorem agree_withToken {request : TokenRequest} {prior : Json} {failure : PyError}
    {use : Json → Iterate Unit} {pass : Json → Collect Json}
    (huse : ∀ a, Agree Fresh SameWorld (use a >>= fun _ ↦ pure a) (pass a)) :
    Agree Fresh SameWorld (withToken services request prior failure use)
      (acquireToken services.toServices request prior >>= fun a ↦
        if a.truthy then pass a else throw failure) := by
  refine (agree_onWorld_fresh _).bind (fun _ _ ↦ Fresh.sameWorld) fun a ↦ ?_
  split
  · exact huse a
  · exact agree_throw (fun _ _ ↦ Fresh.sameWorld) _

theorem agree_collectSince_return (c : Collector) (item : InputItem) (tenantId : String)
    (urls : ApiUrls) (a : Json) (queryDate : String) : Agree Fresh SameWorld
      (collectSince services c item tenantId urls a queryDate >>= fun _ ↦ pure a)
      (MsSecurity.collectSince services.toServices c item tenantId urls a queryDate >>=
        fun _ ↦ pure a) :=
  (agree_collectSince c item tenantId urls a queryDate).bind (fun _ _ ↦ id) fun _ ↦
    agree_pure (fun _ _ ↦ id) a

theorem agree_streamIncidents (item : InputItem) (prior : Json) : Agree Fresh SameWorld
    (streamIncidents services item prior)
    (MsSecurity.streamIncidents services.toServices item prior) :=
  (agree_liftExcept (fun _ _ ↦ id) _).bind (fun _ _ ↦ Fresh.sameWorld) fun _ ↦
    (agree_onWorld_fresh _).bind (fun _ _ ↦ Fresh.sameWorld) fun queryDate ↦
      (agree_liftExcept (fun _ _ ↦ id) _).bind (fun _ _ ↦ Fresh.sameWorld) fun (_, tenantId, urls) ↦
        agree_withToken fun a ↦
          agree_collectSince_return .incidents item tenantId urls a queryDate

theorem agree_streamByLocation (c : Collector) (addDefault : Bool) (item : InputItem)
    (prior : Json) : Agree Fresh SameWorld (streamByLocation services c addDefault item prior)
      (MsSecurity.streamByLocation c addDefault services.toServices item prior) := by
  refine (agree_liftExcept (fun _ _ ↦ id) _).bind (fun _ _ ↦ Fresh.sameWorld) fun account ↦
    (agree_liftExcept (fun _ _ ↦ id) _).bind (fun _ _ ↦ Fresh.sameWorld) fun urls ↦
      agree_withToken fun a ↦ ?_
  -- here the date is a part of what the token is used for
  rw [bind_assoc]
  exact (agree_onWorld_fresh _).bind (fun _ _ ↦ Fresh.sameWorld) fun queryDate ↦
    agree_collectSince_return c item _ urls a queryDate

/-- **The log changes nothing.** -/
theorem agree_stream (c : Collector) (stanza : Stanza) (prior : Json) : Agree Fresh SameWorld
    (RestCollector.stream services (.updates c) stanza prior)
    (c.stream services.toServices stanza.toInputItem prior) :=
  match c with
  | .incidents => agree_streamIncidents _ prior
  | .alerts => agree_streamByLocation .alerts false _ prior
  | .machines => agree_streamByLocation .machines true _ prior

end Agree

end Requests

end MsSecurity
