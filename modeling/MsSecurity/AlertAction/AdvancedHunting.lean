import MsSecurity.AlertAction.ModularAction

/-!
# The advanced hunting action

For each event of a search the action runs a query, adds the results to the event buffer and writes
the buffer to the spool. The buffer is not emptied in between, so the results of an event are
written again after each later one, under the header of that one (`spooled_huntEach`). Every result
is in the spool once, under the header of its own event, exactly if no event but the last has any
(`spooledOnce_iff`).
-/

namespace MsSecurity

/-- An instance of `AdvancedHuntingHelper`, after `__init__`. -/
structure AdvancedHuntingHelper where
  settings : ActionSettings
  query : String
  tenantIdFromInput : Option String
  accTenantId : Option String
  clientId : Option String
  clientSecret : Option String
  environment : String
  useDelegatedPermissions : Bool
  delegatedAccName : Option String

/-- What the loop of `process_events` carries from one event to the next. -/
structure HuntVars where
  tenantId : Option String
  query : String
  host : Option String
  index : Option String

/-- What was asked for an event, the header computed for it, and the entries of its results. -/
structure HuntReport where
  tenantId : String
  query : String
  header : Header
  events : List ActionEvent

namespace AdvancedHuntingHelper

/-! ## The action -/

def sourcetype : String := "m365:defender:incident:advanced_hunting"

def fext : String := "ms_advance_hunt"

/-- `event.get("source", "") + self.source`. -/
def eventSource (event : Row) : Except PyError String :=
  match Dict.get event "source" with
  | some (some source) => .ok (source ++ "_advanced_hunting")
  | some none => .error .typeError
  | none => .ok "_advanced_hunting"

/-- The key of the results in an answer. -/
def resultsKey (environment : String) : String :=
  if "graph-api".toList.isSuffixOf environment.toList then "results" else "Results"

variable (helper : AdvancedHuntingHelper) (services : ActionServices)

/-- `get_access_token`. -/
def getAccessToken (urls : ApiUrls) (tenantId : String) : Action Json :=
  cachedAccessToken services
    { clientId := helper.clientId
      clientSecret := helper.clientSecret
      urls := urls
      useDelegatedPermissions := helper.useDelegatedPermissions
      delegatedAccName := helper.delegatedAccName
      environment := some helper.environment
      addDefault := true } tenantId

/-- `hunt_by_query`, and the iteration over what it returns. -/
def huntByQuery (query : String) (accessToken : Json) (urls : ApiUrls) : Action (List Json) := do
  let res ← callApi services "POST" urls.advancedHunting accessToken (.obj [("Query", .str query)])
  let res ← liftExcept (asObject res)
  liftExcept ((res.get (resultsKey helper.environment)).getD (.arr [])).iter

/-- The loop body of `process_events`. -/
def huntEvent (vars : HuntVars) (num : ℕ) (row : Row) : Action (HuntVars × HuntReport) := do
  let event ← preHandle helper.settings num row
  let source ← liftExcept (eventSource event)
  let index := orStr (event.get "index") vars.index
  let query := (nonemptyStr? (event.get "query")).getD vars.query
  let host := orStr (orStr (event.get "host") services.hostname) vars.host
  let tenantId ← liftExcept (required nonemptyStr?
    (orStr (orStr (event.get "tenant_id") vars.tenantId) helper.accTenantId)
    "_Splunk_ tenant_id not found." "")
  let urls ← liftExcept (getUrlsByEnvironment (some helper.environment) (some tenantId))
  let accessToken ← helper.getAccessToken services urls tenantId
  let events ← exceptWith
    (do
      let results ← helper.huntByQuery services query accessToken urls
      addevents helper.settings sourcetype results)
    fun e ↦ throw (.taExecutionFrom e 1)
  -- whether the spool could be written is not looked at
  let _ ← writeevents services index host (some source) fext
  return (⟨some tenantId, query, host, index⟩,
    ⟨tenantId, query, Header.of index host (some source), events⟩)

/-- The loop of `process_events`, over the rows that `get_events` yields. -/
def huntEach : HuntVars → ℕ → List Row → Action (List HuntReport)
  | _, _, [] => return []
  | vars, num, row :: rows => do
    let (vars, report) ← helper.huntEvent services vars num row
    let reports ← huntEach vars (num + 1) rows
    return report :: reports

/-- What the loop starts with. -/
def initialVars : HuntVars where
  tenantId := helper.tenantIdFromInput
  query := helper.query
  host := none
  index := none

/-- `process_events`. -/
def processEvents (rows : List Row) : Action ℤ := do
  let _ ← helper.huntEach services helper.initialVars 0 rows
  return 0

/-- What each event came to in a run of `process_events`. -/
def Reports (rows : List Row) (s : ActionState) (reports : List HuntReport) : Prop :=
  ∃ t, helper.huntEach services helper.initialVars 0 rows s = .ok reports t

/-! ## What is in an answer -/

/-- The results in an answer. -/
def returned (answer : Json) : List Json :=
  match answer with
  | .obj fields =>
    (((Dict.get fields (resultsKey helper.environment)).getD (.arr [])).iter.toOption).getD []
  | _ => []

end AdvancedHuntingHelper

/-- The report is that of the call: its tenant, its query, and the results in its answer. -/
structure HuntReport.AnsweredBy (helper : AdvancedHuntingHelper) (report : HuntReport)
    (call : ApiRequest × Json) : Prop where
  tenantId : ∃ urls, getUrlsByEnvironment (some helper.environment) (some report.tenantId) =
    .ok urls ∧ call.1.url = urls.advancedHunting
  query : call.1.body = .obj [("Query", .str report.query)]
  events : report.events.map ActionEvent.raw = helper.returned call.2

theorem AdvancedHuntingHelper.exists_of_processEvents {helper : AdvancedHuntingHelper}
    {services : ActionServices} {rows : List Row} {s t : ActionState} {code : ℤ}
    (h : helper.processEvents services rows s = .ok code t) :
    ∃ reports, helper.huntEach services helper.initialVars 0 rows s = .ok reports t := by
  obtain ⟨reports, u, heach, hreturn⟩ := bind_eq_ok_iff_exists.mp h
  obtain ⟨-, rfl⟩ := EStateM.Result.ok.inj hreturn
  exact ⟨reports, heach⟩

/-- The results that were returned, each under the header of its event. -/
def reported (reports : List HuntReport) : List (Header × ActionEvent) :=
  reports.flatMap fun report ↦ report.events.map fun event ↦ (report.header, event)

/-- The spool holds each result once, under the header of its event, and nothing else. -/
def SpooledOnce (spool : Spool) (reports : List HuntReport) : Prop :=
  spool.spooled.Perm (reported reports)

/-- What is written when the buffer is written after each event, and kept. -/
def respooled : List ActionEvent → List HuntReport → List (Header × ActionEvent)
  | _, [] => []
  | buffer, report :: reports =>
    (buffer ++ report.events).map (fun event ↦ (report.header, event)) ++
      respooled (buffer ++ report.events) reports

/-! ## What is written -/

namespace AdvancedHuntingHelper

variable {helper : AdvancedHuntingHelper} {services : ActionServices} {s t : ActionState}

theorem returned_obj {fields : Json.Object} {results : List Json}
    (h : ((Dict.get fields (resultsKey helper.environment)).getD (.arr [])).iter = .ok results) :
    helper.returned (.obj fields) = results := by
  change Option.getD (Except.toOption _) [] = results
  rw [h]
  rfl

/-- The results are those of the one call that is made. -/
theorem exists_call_of_huntByQuery {query : String} {accessToken : Json} {urls : ApiUrls}
    {results : List Json}
    (h : helper.huntByQuery services query accessToken urls s = .ok results t) :
    ∃ call : ApiRequest × Json, t.calls = s.calls ++ [call] ∧ call.1.method = "POST" ∧
      call.1.url = urls.advancedHunting ∧ call.1.body = .obj [("Query", .str query)] ∧
      results = helper.returned call.2 ∧ s.Kept t := by
  obtain ⟨response, s₁, hcall, h⟩ := bind_eq_ok_iff_exists.mp h
  obtain ⟨answer, s₂, hobject, hiter⟩ := bind_eq_ok_iff_exists.mp h
  obtain ⟨hanswer, rfl⟩ := liftExcept_eq_ok_iff.mp hobject
  obtain ⟨hresults, rfl⟩ := liftExcept_eq_ok_iff.mp hiter
  obtain ⟨call, hcalls, hmethod, hurl, hbody, hresponse⟩ := exists_call_of_callApi hcall
  refine ⟨call, hcalls, hmethod, hurl, hbody, ?_, (keeps_callApi _ _ _ _ s).of_ok hcall⟩
  rw [hresponse, asObject_eq_ok_iff.mp hanswer, returned_obj hresults]

/-- What handling an event came to: one call, whose results are added to the buffer, and a spool
that all of the buffer is written to under the header of the event. -/
structure Hunted (helper : AdvancedHuntingHelper) (services : ActionServices) (row : Row)
    (vars : HuntVars) (s : ActionState) (vars' : HuntVars) (report : HuntReport)
    (t : ActionState) (call : ApiRequest × Json) : Prop where
  calls : t.calls = s.calls ++ [call]
  method : call.1.method = "POST"
  answered : report.AnsweredBy helper call
  events : t.events = s.events ++ report.events
  numbers : NumberedFrom s.events.length report.events
  spool : t.spool = (writeChunks services.spool (sanitizeExt fext) report.header
    (chunksOf defaultChunk t.events) s.spool).2
  tenantId : nonemptyStr? (orStr (orStr (row.get "tenant_id") vars.tenantId) helper.accTenantId) =
    some report.tenantId
  query : report.query = (nonemptyStr? (row.get "query")).getD vars.query
  index : report.header.index = getString vars'.index "summary"
  vars_tenantId : vars'.tenantId = some report.tenantId
  vars_query : vars'.query = report.query
  vars_index : vars'.index = orStr (row.get "index") vars.index

theorem exists_hunted_of_huntEvent {vars vars' : HuntVars} {num : ℕ} {row : Row}
    {report : HuntReport}
    (h : helper.huntEvent services vars num row s = .ok (vars', report) t) :
    ∃ call, Hunted helper services row vars s vars' report t call := by
  obtain ⟨event, s₁, hevent, h⟩ := bind_eq_ok_iff_exists.mp h
  obtain rfl := eq_setDefault_of_preHandle hevent
  obtain ⟨source, s₂, hsource, h⟩ := bind_eq_ok_iff_exists.mp h
  obtain ⟨tenantId, s₃, htenant, h⟩ := bind_eq_ok_iff_exists.mp h
  obtain ⟨urls, s₄, hurls, h⟩ := bind_eq_ok_iff_exists.mp h
  obtain ⟨accessToken, s₅, htoken, h⟩ := bind_eq_ok_iff_exists.mp h
  obtain ⟨events, s₆, hquery, h⟩ := bind_eq_ok_iff_exists.mp h
  obtain ⟨written, s₇, hwrite, hreturn⟩ := bind_eq_ok_iff_exists.mp h
  obtain ⟨hpair, rfl⟩ := EStateM.Result.ok.inj hreturn
  obtain ⟨rfl, rfl⟩ := Prod.mk.inj hpair
  obtain ⟨-, rfl⟩ := liftExcept_eq_ok_iff.mp hsource
  obtain ⟨hrequired, rfl⟩ := liftExcept_eq_ok_iff.mp htenant
  obtain ⟨hresolved, rfl⟩ := liftExcept_eq_ok_iff.mp hurls
  -- between the token and the spool there is the query, and what it adds to the buffer
  obtain ⟨results, u, hhunt, hadd⟩ :=
    bind_eq_ok_iff_exists.mp (exceptWith_throw_eq_ok_iff.mp hquery)
  obtain ⟨call, hcalls, hmethod, hurl, hbody, rfl, hkept⟩ := exists_call_of_huntByQuery hhunt
  obtain ⟨_, hevents, hraws, hgains⟩ := ends_addevents.of_ok hadd
  obtain rfl := Except.ok.inj hevents
  obtain ⟨-, hbuffer, hwritten⟩ := ends_writeevents.of_ok hwrite
  have hbefore : s.Kept u :=
    ((keeps_preHandle num row s).of_ok hevent).trans
      ((((keeps_cachedAccessToken _ _) _).of_ok htoken).trans hkept)
  rw [required_eq_ok_iff, Row.get_setDefault_of_ne (by decide)] at hrequired
  refine ⟨call, ⟨?_, hmethod, ⟨⟨urls, hresolved, hurl⟩, hbody, hraws⟩, ?_, ?_, ?_, hrequired,
    ?_, rfl, rfl, rfl, ?_⟩⟩
  · rw [(preserves_calls_writeevents _ _ _ _).of_ok hwrite, hgains.calls, hcalls,
      (preserves_calls_cachedAccessToken _ _).of_ok htoken,
      (preserves_calls_preHandle _ _).of_ok hevent]
  · rw [hbuffer, hgains.events, hbefore.events]
  · rw [← hbefore.events]
    exact hgains.numbers
  · rw [hwritten, hbuffer, hgains.spool, hbefore.spool]
  · dsimp only
    rw [Row.get_setDefault_of_ne (by decide)]
  · dsimp only
    rw [Row.get_setDefault_of_ne (by decide)]

/-- A completed loop has made one call for each event, and its reports tell of them. -/
theorem exists_calls_of_huntEach {vars : HuntVars} {num : ℕ} {rows : List Row}
    {reports : List HuntReport}
    (h : helper.huntEach services vars num rows s = .ok reports t) :
    ∃ calls, t.calls = s.calls ++ calls ∧
      List.Forall₂ (fun report call ↦ report.AnsweredBy helper call) reports calls := by
  induction rows generalizing vars num s reports with
  | nil =>
    obtain ⟨rfl, rfl⟩ := EStateM.Result.ok.inj h
    exact ⟨[], (List.append_nil _).symm, .nil⟩
  | cons row rows ih =>
    obtain ⟨⟨vars₁, report⟩, s₁, hevent, hrest⟩ := bind_eq_ok_iff_exists.mp h
    obtain ⟨reports, s₂, heach, hreturn⟩ := bind_eq_ok_iff_exists.mp hrest
    obtain ⟨rfl, rfl⟩ := EStateM.Result.ok.inj hreturn
    obtain ⟨call, hhunted⟩ := exists_hunted_of_huntEvent hevent
    obtain ⟨calls, hcalls, hall⟩ := ih heach
    refine ⟨call :: calls, ?_, .cons hhunted.answered hall⟩
    rw [hcalls, hhunted.calls, List.append_assoc, List.singleton_append]

/-- Every file in the spool has the name of an earlier attempt. -/
def NamesFrom (services : ActionServices) (spool : Spool) : Prop :=
  ∀ name ∈ spool.names, ∃ k < spool.attempts, name = spoolName services.spool (sanitizeExt fext) k

/-- Where every file can be written under a name of its own, the loop writes the whole buffer after
each event. -/
theorem spooled_huntEach (hok : ∀ k, (services.spool k).ok)
    (hinj : Function.Injective fun k ↦ (services.spool k).stamp) {vars : HuntVars} {num : ℕ}
    {rows : List Row} {reports : List HuntReport} (hnames : NamesFrom services s.spool)
    (h : helper.huntEach services vars num rows s = .ok reports t) :
    t.spool.spooled = s.spool.spooled ++ respooled s.events reports := by
  induction rows generalizing s vars num reports with
  | nil =>
    obtain ⟨rfl, rfl⟩ := EStateM.Result.ok.inj h
    exact (List.append_nil _).symm
  | cons row rows ih =>
    obtain ⟨⟨vars₁, report⟩, s₁, hevent, hrest⟩ := bind_eq_ok_iff_exists.mp h
    obtain ⟨reports, s₂, heach, hreturn⟩ := bind_eq_ok_iff_exists.mp hrest
    obtain ⟨rfl, rfl⟩ := EStateM.Result.ok.inj hreturn
    obtain ⟨call, hhunted⟩ := exists_hunted_of_huntEvent hevent
    obtain ⟨hspooled, hattempts, hwritten⟩ := spooled_writeChunks report.header
      (takes_of_injective (n := (chunksOf defaultChunk s₁.events).length) hok hinj hnames)
    rw [← hhunted.spool] at hspooled hattempts hwritten
    -- the names stay those of earlier attempts, so the next event finds new ones
    have hnames' : NamesFrom services s₁.spool := by
      intro name hname
      rw [hattempts]
      rcases hwritten name hname with hname | hname
      · obtain ⟨k, hk, rfl⟩ := hnames name hname
        exact ⟨k, by omega, rfl⟩
      · exact hname
    rw [ih hnames' heach, hspooled, flatten_chunksOf (by decide), hhunted.events,
      List.append_assoc]
    rfl

end AdvancedHuntingHelper

/-! ## When it is written once -/

theorem length_respooled_ge (buffer : List ActionEvent) (reports : List HuntReport) :
    (reported reports).length + buffer.length * reports.length ≤
      (respooled buffer reports).length := by
  induction reports generalizing buffer with
  | nil => simp [reported, respooled]
  | cons report reports ih =>
    have hrest := ih (buffer ++ report.events)
    rw [List.length_append, Nat.add_mul] at hrest
    simp only [reported, respooled, List.flatMap_cons, List.length_append, List.length_map,
      List.length_cons, Nat.mul_succ] at *
    omega

/-- Writing the buffer again and again is writing each result once if only the last report has
any. -/
theorem respooled_perm_iff (reports : List HuntReport) :
    (respooled [] reports).Perm (reported reports) ↔
      ∀ report ∈ reports.dropLast, report.events = [] := by
  induction reports with
  | nil => exact iff_of_true (List.Perm.refl _) fun _ h ↦ absurd h List.not_mem_nil
  | cons report reports ih =>
    have hreported : reported (report :: reports) =
        report.events.map (fun event ↦ (report.header, event)) ++ reported reports := rfl
    rw [respooled, hreported, List.nil_append, List.perm_append_left_iff]
    rcases reports with - | ⟨next, reports⟩
    · exact iff_of_true (List.Perm.refl _) fun _ h ↦ absurd h List.not_mem_nil
    · rw [List.dropLast_cons_cons, List.forall_mem_cons]
      constructor
      · intro h
        -- every event of the first report is written with each of the others again
        have hlength := length_respooled_ge report.events (next :: reports)
        rw [h.length_eq, List.length_cons, Nat.mul_succ] at hlength
        have hnil : report.events = [] := List.length_eq_zero_iff.mp (by omega)
        rw [hnil] at h
        exact ⟨hnil, ih.mp h⟩
      · rintro ⟨hnil, hrest⟩
        rw [hnil]
        exact ih.mpr hrest

/-- **Each result once, exactly if only the last event has results.** In every completed run of
`process_events` whose spool files can all be written under names of their own, the spool holds each
result once, under the header of the event whose query returned it, if and only if every event but
the last returned none. The results are those in the answers to the run's calls, one for each event.
-/
theorem spooledOnce_iff {helper : AdvancedHuntingHelper} {services : ActionServices}
    {rows : List Row} {s t : ActionState} {code : ℤ} {reports : List HuntReport}
    (hok : ∀ k, (services.spool k).ok)
    (hinj : Function.Injective fun k ↦ (services.spool k).stamp) (hs : s.Fresh)
    (hrun : helper.processEvents services rows s = .ok code t)
    (hreports : helper.Reports services rows s reports) :
    (∃ calls, t.calls = s.calls ++ calls ∧
        List.Forall₂ (fun report call ↦ report.AnsweredBy helper call) reports calls) ∧
      (SpooledOnce t.spool reports ↔ ∀ report ∈ reports.dropLast, report.events = []) := by
  obtain ⟨reports', heach⟩ := helper.exists_of_processEvents hrun
  obtain ⟨t', heach'⟩ := hreports
  obtain ⟨rfl, rfl⟩ := EStateM.Result.ok.inj (heach.symm.trans heach')
  have hnames : AdvancedHuntingHelper.NamesFrom services s.spool := by
    intro name hname
    rw [Spool.names, hs.files] at hname
    cases hname
  refine ⟨helper.exists_calls_of_huntEach heach, ?_⟩
  have hspooled := helper.spooled_huntEach hok hinj hnames heach
  rw [SpooledOnce, hspooled, hs.events, Spool.spooled, hs.files]
  exact respooled_perm_iff reports'

/-! ## Two events with a result each -/

def someHunt : AdvancedHuntingHelper where
  settings := ⟨"defender_advanced_hunting", "1700000000.1", ""⟩
  query := "DeviceInfo"
  tenantIdFromInput := some "t1"
  accTenantId := none
  clientId := some "id"
  clientSecret := some "secret"
  environment := "default"
  useDelegatedPermissions := false
  delegatedAccName := none

/-- Every query returns one result, whose number is that of the answer. -/
def oneResult : ActionServices where
  hostname := some "host"
  currentVersion := some "2.0"
  proxy _ := none
  accessToken _ _ := .ok (.str "token")
  request n _ := .ok (.obj [("Results", .arr [.int n])])
  spool n := ⟨toString n, true⟩

def inIndex (index : String) : Row := [("index", some index), ("source", some "search")]

theorem oneResult_ok (k : ℕ) : (oneResult.spool k).ok := rfl

theorem oneResult_injective : Function.Injective fun k ↦ (oneResult.spool k).stamp :=
  toString_nat_injective

theorem spooledOnce_iff_oneEvent : ∃ t reports,
    someHunt.processEvents oneResult [inIndex "a"] newAction = .ok 0 t ∧
      (reported reports).length = 1 ∧ SpooledOnce t.spool reports := by
  obtain ⟨t, reports, hrun, hreports, hlast, hlength⟩ : ∃ t reports,
      someHunt.processEvents oneResult [inIndex "a"] newAction = .ok 0 t ∧
      someHunt.Reports oneResult [inIndex "a"] newAction reports ∧ reports.dropLast = [] ∧
      (reported reports).length = 1 := ⟨_, _, rfl, ⟨_, rfl⟩, rfl, rfl⟩
  refine ⟨t, reports, hrun, hlength, (spooledOnce_iff oneResult_ok oneResult_injective ⟨rfl, rfl⟩
    hrun hreports).2.mpr ?_⟩
  rw [hlast]
  exact fun _ h ↦ absurd h List.not_mem_nil

/-- The first event's result is written again, under the second event's header. -/
theorem not_spooledOnce :
    ¬∀ (helper : AdvancedHuntingHelper) (services : ActionServices) (rows : List Row)
      (s t : ActionState) (code : ℤ) (reports : List HuntReport), (∀ k, (services.spool k).ok) →
      (Function.Injective fun k ↦ (services.spool k).stamp) → s.Fresh →
      helper.processEvents services rows s = .ok code t → helper.Reports services rows s reports →
      SpooledOnce t.spool reports := by
  intro h
  have hends : Ends (someHunt.huntEach oneResult someHunt.initialVars 0
      [inIndex "a", inIndex "b"]) newAction fun r t ↦ t.spool.spooled.length = 3 ∧
        (r.toOption.map fun reports ↦ (reported reports).length) = some 2 := by
    decide +kernel
  cases heach : someHunt.huntEach oneResult someHunt.initialVars 0
      [inIndex "a", inIndex "b"] newAction with
  | error e t => exact nomatch (hends.of_error heach).2
  | ok reports t =>
    obtain ⟨hspooled, hreported⟩ := hends.of_ok heach
    have hrun : someHunt.processEvents oneResult [inIndex "a", inIndex "b"] newAction = .ok 0 t :=
      bind_eq_ok_iff_exists.mpr ⟨reports, t, heach, rfl⟩
    have hperm := h someHunt oneResult _ newAction t 0 reports oneResult_ok oneResult_injective
      ⟨rfl, rfl⟩ hrun ⟨t, heach⟩
    have hlength : 3 = 2 := hspooled.symm.trans (hperm.length_eq.trans (Option.some.inj hreported))
    exact absurd hlength (by decide)

end MsSecurity
