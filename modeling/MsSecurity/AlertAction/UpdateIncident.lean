import MsSecurity.AlertAction.ModularAction

/-!
# The incident update action

For each event of a search that names an incident the action updates the incident in the tenant of
the event, and adds the answer and its alerts to the event buffer. The buffer is written once, after
the last event, under the index, the host and the tenant that the loop variables hold by then. So
every answer is written under the header of the event that asked for it exactly if those events all
have the header of the last ones (`attributed_iff`).
-/

namespace MsSecurity

/-- An instance of `UpdateIncidentHelper`, after `__init__`. -/
structure UpdateIncidentHelper where
  settings : ActionSettings
  incidentId : Option String
  environment : String
  tenantId : Option String
  accTenantId : Option String
  clientId : Option String
  clientSecret : Option String
  /-- What `get_update_incident_data` made of the parameters. -/
  data : Json.Object

/-- What the loop of `process_events` carries from one event to the next. -/
structure UpdateVars where
  tenantId : Option String
  index : Option String
  host : Option String

/-- An update that an event asked for: in which tenant it was made, and the entries of its answer.
-/
structure UpdateReport where
  event : Row
  tenantId : String
  events : List ActionEvent

/-- The source of an incident. -/
def incidentSource (tenantId : String) : String :=
  "microsoft_365_defender_endpoint_incidents:" ++ tenantId

/-- What an answer becomes; the alerts are taken out only if there are any. -/
def answerPayloads (incident : Json.Object) : Except PyError (List Json) :=
  if (incident.getD "alerts").truthy then
    (incident.getD "alerts").iter.map (· ++ [.obj (incident.del "alerts")])
  else .ok [.obj incident]

/-- The incident in an answer, and its alerts. -/
def recorded (answer : Json) : List Json :=
  match answer with
  | .obj incident => (answerPayloads incident).toOption.getD []
  | _ => []

theorem ne_nil_of_answerPayloads {incident : Json.Object} {payloads : List Json}
    (h : answerPayloads incident = .ok payloads) : payloads ≠ [] := by
  rw [answerPayloads] at h
  split_ifs at h
  · cases halerts : (incident.getD "alerts").iter with
    | error e =>
      rw [halerts] at h
      exact absurd h error_ne_ok
    | ok alerts =>
      rw [halerts] at h
      obtain rfl := Except.ok.inj h
      exact List.append_ne_nil_of_right_ne_nil _ (List.cons_ne_nil _ _)
  · obtain rfl := Except.ok.inj h
    exact List.cons_ne_nil _ _

namespace UpdateIncidentHelper

/-! ## The action -/

def fext : String := "ms_update_incident"

variable (helper : UpdateIncidentHelper) (services : ActionServices)

/-- `get_access_token`. -/
def getAccessToken (urls : ApiUrls) (tenantId : String) : Action Json :=
  cachedAccessToken services
    { clientId := helper.clientId
      clientSecret := helper.clientSecret
      urls := urls
      useDelegatedPermissions := false
      delegatedAccName := none
      environment := none
      addDefault := false } tenantId

/-- `update_incident`; the result is what it added to the buffer. -/
def updateIncident (accessToken : Json) (incidentUrl : String) : Action (List ActionEvent) := do
  let response ← callApi services "PATCH" incidentUrl accessToken (.obj helper.data)
  let updatedIncident ← liftExcept (asObject response)
  if (updatedIncident.getD "alerts").truthy then
    let alerts ← liftExcept (updatedIncident.getD "alerts").iter
    let alerts ← addevents helper.settings "ms365:defender:incident:alerts" alerts
    let incident ← addevents helper.settings "ms365:defender:incident"
      [.obj (updatedIncident.del "alerts")]
    return alerts ++ incident
  else addevents helper.settings "ms365:defender:incident" [.obj updatedIncident]

/-- `event.get("incidentId") or self.incident_id`. -/
def eventIncidentId (event : Row) : Option String :=
  orStr (event.get "incidentId") helper.incidentId

/-- `event.get("tenant_id") or self.tenant_id or self.acc_tenant_id`. -/
def eventTenantId (event : Row) : Option String :=
  orStr (orStr (event.get "tenant_id") helper.tenantId) helper.accTenantId

/-- The loop body of `process_events`. -/
def updateEvent (vars : UpdateVars) (num : ℕ) (row : Row) :
    Action (UpdateVars × List UpdateReport) := do
  let event ← preHandle helper.settings num row
  let index := orStr (event.get "index") vars.index
  let host := orStr (event.get "host") vars.host
  let tenantId ← liftExcept (required nonemptyStr? (helper.eventTenantId event)
    "_Splunk_ tenant_id not found." "")
  let urls ← liftExcept (getUrlsByEnvironment (some helper.environment) (some tenantId))
  let accessToken ← helper.getAccessToken services urls tenantId
  let vars : UpdateVars := ⟨some tenantId, index, host⟩
  match nonemptyStr? (helper.eventIncidentId event) with
  | some incidentId =>
    let events ← exceptWith
      (helper.updateIncident services accessToken (urls.incidents ++ "/" ++ incidentId))
      fun e ↦ throw (.taExecutionFrom e 1)
    return (vars, [⟨event, tenantId, events⟩])
  | none => return (vars, [])

/-- The loop of `process_events`, over the rows that `get_events` yields. -/
def updateEach : UpdateVars → ℕ → List Row → Action (UpdateVars × List UpdateReport)
  | vars, _, [] => return (vars, [])
  | vars, num, row :: rows => do
    let (vars, report) ← helper.updateEvent services vars num row
    let (vars, reports) ← updateEach vars (num + 1) rows
    return (vars, report ++ reports)

/-- What the loop starts with. -/
def initialVars : UpdateVars where
  tenantId := none
  index := some "main"
  host := none

/-- `process_events`. The number of updates is the number of reports. -/
def processEvents (rows : List Row) : Action ℤ := do
  let (vars, reports) ← helper.updateEach services initialVars 0 rows
  if reports.length ≠ 0 then
    let host := orStr vars.host services.hostname
    let source := incidentSource (pyStr vars.tenantId)
    let _ ← writeevents services vars.index host (some source) fext
    return 0
  else return 0

/-- The updates of a run of `process_events`. -/
def Reports (rows : List Row) (s : ActionState) (reports : List UpdateReport) : Prop :=
  ∃ vars t, helper.updateEach services initialVars 0 rows s = .ok (vars, reports) t

/-! ## Attribution -/

/-- The header that is right for what an event asked for: its own values, or the defaults. -/
def rightHeader (event : Row) (tenantId : String) : Header :=
  Header.of (orStr (event.get "index") (some "main"))
    (orStr (event.get "host") services.hostname) (some (incidentSource tenantId))

end UpdateIncidentHelper

/-- The report is that of the call: its tenant, its incident, and what its answer becomes. -/
structure UpdateReport.AnsweredBy (helper : UpdateIncidentHelper) (report : UpdateReport)
    (call : ApiRequest × Json) : Prop where
  tenantId : ∃ urls incidentId,
    getUrlsByEnvironment (some helper.environment) (some report.tenantId) = .ok urls ∧
      nonemptyStr? (helper.eventIncidentId report.event) = some incidentId ∧
      call.1.url = urls.incidents ++ "/" ++ incidentId
  events : report.events.map ActionEvent.raw = recorded call.2

/-- The last value of a column that is not empty. -/
def lastValue (column : String) (rows : List Row) : Option String :=
  (rows.filterMap fun row ↦ nonemptyStr? (row.get column)).getLast?

namespace UpdateIncidentHelper

variable (helper : UpdateIncidentHelper) (services : ActionServices)

/-- The event names an incident, or the action does. -/
def Asks (event : Row) : Prop := truthyStr (helper.eventIncidentId event)

instance : DecidablePred helper.Asks := fun event ↦
  inferInstanceAs (Decidable (truthyStr (helper.eventIncidentId event) = true))

/-- The call is the update that the event asks for. -/
def Updates (row : Row) (call : ApiRequest × Json) : Prop :=
  ∃ tenantId urls incidentId, nonemptyStr? (helper.eventTenantId row) = some tenantId ∧
    getUrlsByEnvironment (some helper.environment) (some tenantId) = .ok urls ∧
    nonemptyStr? (helper.eventIncidentId row) = some incidentId ∧
    call.1.method = "PATCH" ∧ call.1.url = urls.incidents ++ "/" ++ incidentId ∧
    call.1.body = .obj helper.data

/-- The tenant, index and host columns are not touched by `pre_handle`. -/
theorem eventTenantId_setDefault (row : Row) (num : ℕ) :
    helper.eventTenantId (row.setDefault "rid" (toString num)) = helper.eventTenantId row := by
  rw [eventTenantId, Row.get_setDefault_of_ne (by decide), eventTenantId]

theorem eventIncidentId_setDefault (row : Row) (num : ℕ) :
    helper.eventIncidentId (row.setDefault "rid" (toString num)) = helper.eventIncidentId row := by
  rw [eventIncidentId, Row.get_setDefault_of_ne (by decide), eventIncidentId]

theorem rightHeader_setDefault (row : Row) (num : ℕ) (tenantId : String) :
    rightHeader services (row.setDefault "rid" (toString num)) tenantId =
      rightHeader services row tenantId := by
  rw [rightHeader, Row.get_setDefault_of_ne (by decide), Row.get_setDefault_of_ne (by decide),
    rightHeader]

variable {helper services} {s s₁ t : ActionState}

/-! ## What the loop does -/

/-- An update puts what the answer becomes into the buffer. -/
theorem ends_updateIncident_answered {accessToken : Json} {incidentUrl : String}
    {incident : Json.Object} (hresponse : callApi services "PATCH" incidentUrl accessToken
      (.obj helper.data) s = .ok (.obj incident) s₁) :
    Ends (helper.updateIncident services accessToken incidentUrl) s fun r t ↦
      r.map (List.map ActionEvent.raw) = answerPayloads incident ∧
        ∀ events, r = .ok events → s₁.Gains events t := by
  rw [updateIncident, ends_bind_of_ok hresponse, asObject, liftExcept_ok_bind, answerPayloads]
  split_ifs with halerts
  · rw [ends_bind, ends_liftExcept]
    cases (incident.getD "alerts").iter with
    | error e => exact ⟨rfl, fun _ h ↦ absurd h error_ne_ok⟩
    | ok alerts =>
      dsimp only
      rw [ends_bind]
      refine ends_addevents.mono ?_
      rintro r s₂ ⟨alertEvents, rfl, hraws, hgains⟩
      dsimp only
      rw [ends_bind]
      refine ends_addevents.mono ?_
      rintro r t ⟨incidentEvents, rfl, hraws', hgains'⟩
      refine ⟨congrArg Except.ok ?_, ?_⟩
      · rw [List.map_append, hraws, hraws']
      · rintro _ ⟨⟩
        exact hgains.append hgains'
  · refine ends_addevents.mono ?_
    rintro r t ⟨incidentEvents, rfl, hraws, hgains⟩
    refine ⟨congrArg Except.ok hraws, ?_⟩
    rintro _ ⟨⟩
    exact hgains

theorem exists_call_of_updateIncident {accessToken : Json} {incidentUrl : String}
    {events : List ActionEvent}
    (h : helper.updateIncident services accessToken incidentUrl s = .ok events t) :
    ∃ (call : ApiRequest × Json) (s₁ : ActionState), s.Kept s₁ ∧ s₁.calls = s.calls ++ [call] ∧
      call.1.method = "PATCH" ∧ call.1.url = incidentUrl ∧ call.1.body = .obj helper.data ∧
      events.map ActionEvent.raw = recorded call.2 ∧ events ≠ [] ∧ s₁.Gains events t := by
  obtain ⟨response, s₁, hcall, hrest⟩ := bind_eq_ok_iff_exists.mp h
  obtain ⟨incident, s₂, hobject, -⟩ := bind_eq_ok_iff_exists.mp hrest
  obtain ⟨hincident, -⟩ := liftExcept_eq_ok_iff.mp hobject
  obtain rfl := asObject_eq_ok_iff.mp hincident
  obtain ⟨call, hcalls, hmethod, hurl, hbody, hresponse⟩ := exists_call_of_callApi hcall
  obtain ⟨hpayloads, hgains⟩ := (ends_updateIncident_answered hcall).of_ok h
  refine ⟨call, s₁, (keeps_callApi _ _ _ _ s).of_ok hcall, hcalls, hmethod, hurl, hbody, ?_, ?_,
    hgains events rfl⟩
  · rw [hresponse, recorded, ← hpayloads]
    rfl
  · rintro rfl
    exact ne_nil_of_answerPayloads hpayloads.symm rfl

/-- What a stretch of the loop has done: the buffer holds the answers, the spool is as it was, the
headers that are right are those of the rows that asked, and so are the calls. -/
structure Updated (helper : UpdateIncidentHelper) (services : ActionServices) (rows : List Row)
    (s : ActionState) (reports : List UpdateReport) (t : ActionState) : Prop where
  events : t.events = s.events ++ reports.flatMap UpdateReport.events
  spool : t.spool = s.spool
  ne_nil : ∀ report ∈ reports, report.events ≠ []
  headers : reports.map (fun report ↦ rightHeader services report.event report.tenantId) =
    (rows.filter helper.Asks).map fun row ↦
      rightHeader services row (pyStr (helper.eventTenantId row))
  numbers : NumberedFrom s.events.length (reports.flatMap UpdateReport.events)
  calls : ∃ calls, t.calls = s.calls ++ calls ∧
    List.Forall₂ helper.Updates (rows.filter helper.Asks) calls ∧
    List.Forall₂ (fun report call ↦ report.AnsweredBy helper call) reports calls

theorem Updated.append {rows rows' : List Row} {reports reports' : List UpdateReport}
    {u : ActionState} (h : Updated helper services rows s reports t)
    (h' : Updated helper services rows' t reports' u) :
    Updated helper services (rows ++ rows') s (reports ++ reports') u where
  events := by rw [h'.events, h.events, List.flatMap_append, List.append_assoc]
  spool := h'.spool.trans h.spool
  ne_nil report hreport := (List.mem_append.mp hreport).elim (h.ne_nil report) (h'.ne_nil report)
  headers := by rw [List.map_append, h.headers, h'.headers, ← List.map_append, ← List.filter_append]
  numbers := by
    have hnumbers := h'.numbers
    rw [h.events, List.length_append] at hnumbers
    rw [List.flatMap_append]
    exact h.numbers.append hnumbers
  calls := by
    obtain ⟨calls, hcalls, hupdates, hanswered⟩ := h.calls
    obtain ⟨calls', hcalls', hupdates', hanswered'⟩ := h'.calls
    refine ⟨calls ++ calls', ?_, ?_, List.rel_append hanswered hanswered'⟩
    · rw [hcalls', hcalls, List.append_assoc]
    · rw [List.filter_append]
      exact List.rel_append hupdates hupdates'

theorem updated_of_not_asks {row : Row} (hasks : ¬helper.Asks row) (hkept : s.Kept t)
    (hcalls : t.calls = s.calls) : Updated helper services [row] s [] t := by
  have hfilter : [row].filter (fun row ↦ decide (helper.Asks row)) = [] := by simpa using hasks
  refine ⟨?_, hkept.spool, fun _ h ↦ absurd h List.not_mem_nil, ?_, rfl, [], ?_, ?_, .nil⟩
  · rw [hkept.events, List.flatMap_nil, List.append_nil]
  · rw [hfilter]
    rfl
  · rw [hcalls, List.append_nil]
  · rw [hfilter]
    exact .nil

theorem updated_of_asks {row : Row} {report : UpdateReport} {call : ApiRequest × Json}
    {u v : ActionState} (hasks : helper.Asks row) (hkept : s.Kept u)
    (hcalls : u.calls = s.calls ++ [call]) (hgains : u.Gains report.events v)
    (hne : report.events ≠ [])
    (hheader : rightHeader services report.event report.tenantId =
      rightHeader services row (pyStr (helper.eventTenantId row)))
    (hupdates : helper.Updates row call) (hanswered : report.AnsweredBy helper call) :
    Updated helper services [row] s [report] v := by
  have hfilter : [row].filter (fun row ↦ decide (helper.Asks row)) = [row] := by simpa using hasks
  refine ⟨?_, ?_, ?_, ?_, ?_, [call], ?_, ?_, .cons hanswered .nil⟩
  · rw [hgains.events, hkept.events, List.flatMap_singleton]
  · rw [hgains.spool, hkept.spool]
  · intro report' hreport
    rw [List.mem_singleton.mp hreport]
    exact hne
  · rw [hfilter, List.map_singleton, List.map_singleton, hheader]
  · rw [← hkept.events, List.flatMap_singleton]
    exact hgains.numbers
  · rw [hgains.calls, hcalls]
  · rw [hfilter]
    exact .cons hupdates .nil

theorem updated_of_updateEvent {vars vars' : UpdateVars} {num : ℕ} {row : Row}
    {reports : List UpdateReport}
    (h : helper.updateEvent services vars num row s = .ok (vars', reports) t) :
    Updated helper services [row] s reports t ∧
      vars' = ⟨helper.eventTenantId row, orStr (row.get "index") vars.index,
        orStr (row.get "host") vars.host⟩ := by
  obtain ⟨event, s₁, hevent, h⟩ := bind_eq_ok_iff_exists.mp h
  obtain rfl := eq_setDefault_of_preHandle hevent
  obtain ⟨tenantId, s₂, htenantId, h⟩ := bind_eq_ok_iff_exists.mp h
  obtain ⟨urls, s₃, hurls, h⟩ := bind_eq_ok_iff_exists.mp h
  obtain ⟨accessToken, s₄, htoken, hrest⟩ := bind_eq_ok_iff_exists.mp h
  obtain ⟨hrequired, rfl⟩ := liftExcept_eq_ok_iff.mp htenantId
  obtain ⟨hresolved, rfl⟩ := liftExcept_eq_ok_iff.mp hurls
  rw [eventTenantId_setDefault, required_eq_ok_iff] at hrequired
  rw [eventIncidentId_setDefault, Row.get_setDefault_of_ne (by decide),
    Row.get_setDefault_of_ne (by decide)] at hrest
  have htenant : helper.eventTenantId row = some tenantId :=
    (nonemptyStr?_eq_some_iff.mp hrequired).1
  have hkept : s.Kept s₄ := ((keeps_preHandle _ _ s).of_ok hevent).trans
    ((keeps_cachedAccessToken _ _ _).of_ok htoken)
  have hcalls : s₄.calls = s.calls := by
    rw [(preserves_calls_cachedAccessToken _ _).of_ok htoken,
      (preserves_calls_preHandle _ _).of_ok hevent]
  -- up to here the variables are set and nothing is added; only an event that asks adds its answer
  cases hincident : nonemptyStr? (helper.eventIncidentId row) with
  | none =>
    rw [hincident] at hrest
    obtain ⟨hpair, rfl⟩ := EStateM.Result.ok.inj hrest
    obtain ⟨rfl, rfl⟩ := Prod.mk.inj hpair
    have hasks : ¬helper.Asks row := by rw [Asks, truthyStr_eq_isSome, hincident]; decide
    exact ⟨updated_of_not_asks hasks hkept hcalls, by rw [htenant]⟩
  | some incidentId =>
    rw [hincident] at hrest
    obtain ⟨events, s₅, hupdate, hreturn⟩ := bind_eq_ok_iff_exists.mp hrest
    obtain ⟨hpair, rfl⟩ := EStateM.Result.ok.inj hreturn
    obtain ⟨rfl, rfl⟩ := Prod.mk.inj hpair
    have hasks : helper.Asks row := by rw [Asks, truthyStr_eq_isSome, hincident]; rfl
    obtain ⟨call, u, hkept', hcalls', hmethod, hurl, hbody, hraws, hne, hgains⟩ :=
      exists_call_of_updateIncident (exceptWith_throw_eq_ok_iff.mp hupdate)
    refine ⟨updated_of_asks hasks (hkept.trans hkept') (by rw [hcalls', hcalls]) hgains hne ?_
      ⟨tenantId, urls, incidentId, hrequired, hresolved, hincident, hmethod, hurl, hbody⟩
      ⟨⟨urls, incidentId, hresolved, ?_, hurl⟩, hraws⟩, by rw [htenant]⟩
    · rw [rightHeader_setDefault, htenant]
      rfl
    · rw [eventIncidentId_setDefault, hincident]

theorem lastValue_cons (column : String) (row : Row) (rows : List Row) :
    lastValue column (row :: rows) =
      (lastValue column rows).or (nonemptyStr? (row.get column)) := by
  rw [lastValue, lastValue, List.filterMap_cons]
  cases nonemptyStr? (row.get column) with
  | none => exact Option.or_none.symm
  | some v =>
    rw [List.getLast?_cons]
    cases (rows.filterMap fun row ↦ nonemptyStr? (row.get column)).getLast? <;> rfl

/-- The loop variables hold the last values of their columns, and the tenant of the last event. -/
theorem updated_of_updateEach {vars vars' : UpdateVars} {num : ℕ} {rows : List Row}
    {reports : List UpdateReport}
    (h : helper.updateEach services vars num rows s = .ok (vars', reports) t) :
    Updated helper services rows s reports t ∧
      vars'.index = (lastValue "index" rows).or vars.index ∧
      vars'.host = (lastValue "host" rows).or vars.host ∧
      vars'.tenantId = rows.getLast?.elim vars.tenantId helper.eventTenantId := by
  induction rows generalizing s vars num reports with
  | nil =>
    obtain ⟨hpair, rfl⟩ := EStateM.Result.ok.inj h
    obtain ⟨rfl, rfl⟩ := Prod.mk.inj hpair
    exact ⟨⟨(List.append_nil _).symm, rfl, fun _ h ↦ absurd h List.not_mem_nil, rfl, rfl, [],
      (List.append_nil _).symm, .nil, .nil⟩, rfl, rfl, rfl⟩
  | cons row rows ih =>
    obtain ⟨⟨vars₁, report⟩, s₁, hevent, hrest⟩ := bind_eq_ok_iff_exists.mp h
    obtain ⟨⟨vars₂, reports⟩, s₂, heach, hreturn⟩ := bind_eq_ok_iff_exists.mp hrest
    obtain ⟨hpair, rfl⟩ := EStateM.Result.ok.inj hreturn
    obtain ⟨rfl, rfl⟩ := Prod.mk.inj hpair
    obtain ⟨hfirst, rfl⟩ := updated_of_updateEvent hevent
    obtain ⟨hlater, hindex, hhost, htenant⟩ := ih heach
    -- the variables of the later rows win, each falling back on what the row before it left
    refine ⟨hfirst.append hlater, ?_, ?_, ?_⟩
    · rw [hindex, lastValue_cons, Option.or_assoc, ← orStr_eq_or]
    · rw [hhost, lastValue_cons, Option.or_assoc, ← orStr_eq_or]
    · rw [htenant, List.getLast?_cons]
      cases rows.getLast? <;> rfl

/-- A completed run has made its updates, and then written the buffer, if there were any. -/
theorem exists_of_processEvents {rows : List Row} {t : ActionState} {code : ℤ}
    (h : helper.processEvents services rows s = .ok code t) : ∃ vars reports u,
      helper.updateEach services initialVars 0 rows s = .ok (vars, reports) u ∧
      if reports.length ≠ 0 then t.spool = (writeChunks services.spool (sanitizeExt fext)
        (Header.of vars.index (orStr vars.host services.hostname)
          (some (incidentSource (pyStr vars.tenantId))))
        (chunksOf defaultChunk u.events) u.spool).2 ∧ t.events = u.events ∧ t.calls = u.calls
      else t = u := by
  obtain ⟨⟨vars, reports⟩, u, heach, hrest⟩ := bind_eq_ok_iff_exists.mp h
  refine ⟨vars, reports, u, heach, ?_⟩
  dsimp only at hrest
  split_ifs at hrest with hlength
  · rw [if_pos hlength]
    obtain ⟨written, v, hwrite, hreturn⟩ := bind_eq_ok_iff_exists.mp hrest
    obtain ⟨-, rfl⟩ := EStateM.Result.ok.inj hreturn
    obtain ⟨-, hevents, hspool⟩ := ends_writeevents.of_ok hwrite
    exact ⟨hspool, hevents, (preserves_calls_writeevents _ _ _ _).of_ok hwrite⟩
  · rw [if_neg hlength]
    exact (EStateM.Result.ok.inj hrest).2.symm

end UpdateIncidentHelper

/-! ## The header it is written under -/

def someUpdate : UpdateIncidentHelper where
  settings := ⟨"defender_update_incident", "1700000000.1", ""⟩
  incidentId := none
  environment := "default"
  tenantId := none
  accTenantId := none
  clientId := some "id"
  clientSecret := some "secret"
  data := [("status", .str "Resolved")]

/-- Every request is answered with the number of the answer. -/
def answered : ActionServices where
  hostname := some "host"
  currentVersion := some "2.0"
  proxy _ := none
  accessToken _ _ := .ok (.str "token")
  request n _ := .ok (.obj [("incidentId", .int n)])
  spool n := ⟨toString n, true⟩

def incidentRow (incidentId tenantId index : String) : Row :=
  [("incidentId", some incidentId), ("tenant_id", some tenantId), ("index", some index)]

end MsSecurity
