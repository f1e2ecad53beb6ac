import MsSecurity.AlertAction.AdvancedHunting
import MsSecurity.AlertAction.UpdateIncident

/-!
# The scripts of the alert actions

The script of an alert action reads its payload, builds the helper and hands it the events of the
search. What goes wrong is wrapped in `TaExecutionException`s, layer by layer, and the process exits
with the code of the last one. No layer turns a failure into code 0
(`ActionScript.exitCode_eq_zero_iff`).
-/

namespace MsSecurity

/-! ## The script -/

/-- The exception is an `OSError`. -/
def PyError.isOSError : PyError → Bool
  | .httpError _ => true
  | .other name => name = "OSError"
  | _ => false

/-- What the process exits with when the exception reaches the script, which handles
`TaExecutionException` only. -/
def PyError.exitStatus : PyError → ℤ
  | .taExecution _ exitCode => exitCode
  | .taExecutionFrom _ exitCode => exitCode
  | .systemExit code => code
  | _ => 1

/-- An instance of an action's worker class, after `__init__`. -/
structure Worker where
  settings : ActionSettings
  sessionKey : Option String
  configuration : Dict String

/-- `get_param`. -/
def Worker.getParam (worker : Worker) (name : String) : Option String :=
  Dict.get worker.configuration name

/-- What `get_credentials` returns. -/
structure Credentials where
  clientId : Option String
  clientSecret : Option String
  tenantId : Option String

/-- The step fails with an exception, or by `sys.exit` with a status other than 0. -/
def PyError.Exits (e : PyError) : Prop := e ≠ .systemExit 0

/-- What a process of an alert action is started with, and the answers it gets. Whatever fails does
not pass for a success: nothing calls `sys.exit(0)`, and the worker class raises no
`TaExecutionException` when it is instantiated. -/
structure ActionHost where
  argv : List String
  /-- `argv` in a formatted string. -/
  argvText : String
  /-- The worker built from the payload. -/
  worker : Except PyError Worker
  logLevel : Option PyError
  /-- The search result, as `prepare_meta_for_cam` and as `get_events` open it. -/
  metaResults : Except PyError (List Row)
  results : Except PyError (List Row)
  credentials : Except PyError Credentials
  account : Except PyError Account
  services : ActionServices
  worker_exits : ∀ e, worker = .error e → e.exitStatus ≠ 0
  logLevel_exits : ∀ e, logLevel = some e → e.Exits
  metaResults_exits : ∀ e, metaResults = .error e → e.Exits
  results_exits : ∀ e, results = .error e → e.Exits
  credentials_exits : ∀ e, credentials = .error e → e.Exits
  account_exits : ∀ e, account = .error e → e.Exits
  proxy_exits : ∀ n e, services.proxy n = some e → e.Exits
  accessToken_exits : ∀ n request e, services.accessToken n request = .error e → e.Exits
  request_exits : ∀ n request e, services.request n request = .error e → e.Exits

/-- `get_update_incident_data`. -/
def getUpdateIncidentData (worker : Worker) : Json.Object :=
  field "status" "status" Json.str ++ field "assigned_to" "assignedTo" Json.str ++
    field "classification" "classification" Json.str ++
    field "determination" "determination" Json.str ++
    field "tags" "tags" (fun v ↦ .arr [.str v]) ++
    field "customTags" "customTags" (fun v ↦ .arr [.str v])
where
  /-- A parameter that is given, under the name the API has for it. -/
  field (param key : String) (value : String → Json) : Json.Object :=
    match nonemptyStr? (worker.getParam param) with
    | some v => [(key, value v)]
    | none => []

/-- `UpdateIncidentHelper.__init__`. -/
def UpdateIncidentHelper.init (host : ActionHost) (worker : Worker) :
    Except PyError UpdateIncidentHelper := do
  let credentials ← host.credentials
  return {
    settings := worker.settings
    incidentId := worker.getParam "incident_id"
    environment := (nonemptyStr? (worker.getParam "environment")).getD "default"
    tenantId := worker.getParam "tenant_id"
    accTenantId := credentials.tenantId
    clientId := credentials.clientId
    clientSecret := credentials.clientSecret
    data := getUpdateIncidentData worker }

/-- `AdvancedHuntingHelper.__init__`. -/
def AdvancedHuntingHelper.init (host : ActionHost) (worker : Worker) :
    Except PyError AdvancedHuntingHelper := do
  let _ ← required nonemptyStr? worker.sessionKey "session_key" ""
  let query ← required nonemptyStr? (worker.getParam "query")
    "No 'query' parameter specified. Please enter query parameter" ""
  let credentials ← host.credentials
  let account ← namedAccount (worker.getParam "account_name")
  return {
    settings := worker.settings
    query := query
    tenantIdFromInput := worker.getParam "tenant_id"
    accTenantId := credentials.tenantId
    clientId := credentials.clientId
    clientSecret := credentials.clientSecret
    environment := (nonemptyStr? (worker.getParam "environment")).getD "default"
    useDelegatedPermissions := account.elim false Account.useDelegatedPermissions
    delegatedAccName := account.bind Account.delegatedAccName }
where
  /-- The details of the account, if one is named. -/
  namedAccount (accountName : Option String) : Except PyError (Option Account) :=
    match nonemptyStr? accountName with
    | some _ => some <$> host.account
    | none => .ok none

/-- What the scripts of the actions differ in: their helper. -/
structure ActionScript (H : Type) where
  init : Worker → Except PyError H
  processEvents : H → List Row → Action ℤ

def defenderAdvancedHunting (host : ActionHost) : ActionScript AdvancedHuntingHelper where
  init := AdvancedHuntingHelper.init host
  processEvents helper := helper.processEvents host.services

def defenderUpdateIncident (host : ActionHost) : ActionScript UpdateIncidentHelper where
  init := UpdateIncidentHelper.init host
  processEvents helper := helper.processEvents host.services

/-- It has a worker class of its own, with the text of the other one's. -/
def defenderUpdateIncidentGraph : ActionHost → ActionScript UpdateIncidentHelper :=
  defenderUpdateIncident

/-- `_validate_input_params`. -/
def validateInputParams (host : ActionHost) : Action Unit :=
  if host.argv.length < 2 ∨ host.argv[1]? ≠ some "--execute" then
    throw (.taExecution ("Error: argv=\"" ++ host.argvText ++ "\", expected=\"--execute\"") 1)
  else pure ()

/-- `prepare_meta_for_cam`. -/
def prepareMetaForCam (host : ActionHost) (worker : Worker) : Action Unit := do
  let results ← liftExcept host.metaResults
  match results with
  | [] => return ()
  | result :: _ => updateIds worker.settings (result.setDefault "rid" "0")

/-- `get_events`; `pre_handle` is applied where the rows are gone through. -/
def getEvents (host : ActionHost) : Action (List Row) :=
  match host.results with
  | .ok results => pure results
  | .error e => throw (if e.isOSError then .systemExit 2 else e)

namespace ActionScript

variable {H : Type} (script : ActionScript H) (host : ActionHost)

/-- `process_event` of the helper's module. -/
def helperProcessEvent (worker : Worker) : Action ℤ :=
  exceptWith
    (do
      let helper ← liftExcept (script.init worker)
      let events ← getEvents host
      script.processEvents helper events)
    fun e ↦ throw (.taExecutionFrom e 1)

/-- `process_event` of the worker class. The text that comes with code 4 adds an advice. -/
def processEvent (worker : Worker) : Action ℤ :=
  exceptWith (script.helperProcessEvent host worker) fun e ↦
    if e = .attributeError ∨ e = .typeError then throw (.taExecutionFrom e 4)
    else throw (.taExecutionFrom e 5)

/-- `run`. -/
def run (worker : Worker) : Action ℤ := do
  validateInputParams host
  exceptWith (attempt host.logLevel) fun e ↦ throw (.taExecutionFrom e 2)
  exceptWith
    (do
      prepareMetaForCam host worker
      script.processEvent host worker)
    fun e ↦
      if e.isOSError then
        throw (.taExecution "Error: No search result. Cannot send alert action." 2)
      else throw (.taExecutionFrom e 2)

/-- What the script does before it exits. -/
def main : Action ℤ := do
  let worker ← liftExcept host.worker
  script.run host worker

/-- What the process exits with. -/
def exitCode : ℤ :=
  match script.main host newAction with
  | .ok status _ => status
  | .error e _ => e.exitStatus

end ActionScript

/-- How a process that goes through all its events gets there. -/
structure ActionScript.Finishes {H : Type} (script : ActionScript H) (host : ActionHost)
    (helper : H) (rows : List Row) (s t : ActionState) : Prop where
  started : ∃ worker, host.worker = .ok worker ∧ script.init worker = .ok helper ∧
    prepareMetaForCam host worker newAction = .ok () s
  results : host.results = .ok rows
  processed : ∃ status, script.processEvents helper rows s = .ok status t
  exits : ∃ status, script.main host newAction = .ok status t

/-! ## What the steps raise -/

section Raises

variable {host : ActionHost} {settings : ActionSettings} {α : Type}

theorem exits_of_isException {e : PyError} (h : e.isException = true) : e.Exits := by
  rintro rfl
  cases h

theorem exits_taExecutionFrom (e : PyError) (exitCode : ℤ) :
    (PyError.taExecutionFrom e exitCode).Exits := exits_of_isException rfl

/-- A step that only raises `Exception`s. -/
theorem raisesOnly_exits_liftExcept {x : Except PyError α} (h : RaisesException x) :
    RaisesOnly PyError.Exits (liftExcept x : Action α) :=
  raisesOnly_liftExcept fun e he ↦ exits_of_isException (h e he)

theorem raisesOnly_exits_ask {answer : ℕ → Except PyError α}
    (h : ∀ n e, answer n = .error e → e.Exits) : RaisesOnly PyError.Exits (ask answer) :=
  raisesOnly_get.bind fun _ ↦ (raisesOnly_modify _).bind fun _ ↦ raisesOnly_liftExcept (h _)

theorem raisesOnly_exits_wrapped {x : Action α} {exitCode : ℤ}
    (hx : RaisesOnly PyError.Exits x) :
    RaisesOnly PyError.Exits (exceptWith x fun e ↦ throw (.taExecutionFrom e exitCode)) :=
  hx.exceptWith (fun e _ ↦ raisesOnly_throw (exits_taExecutionFrom e exitCode)) fun _ he _ ↦ he

theorem raisesOnly_exits_updateIds (row : Row) :
    RaisesOnly PyError.Exits (updateIds settings row) := by
  refine (raisesOnly_modify _).bind fun _ ↦ ?_
  split
  · exact raisesOnly_modify _
  · exact raisesOnly_throw (exits_of_isException rfl)

theorem raisesOnly_exits_preHandle (num : ℕ) (row : Row) :
    RaisesOnly PyError.Exits (preHandle settings num row) :=
  (raisesOnly_exits_updateIds _).bind fun _ ↦ raisesOnly_pure _

theorem raisesOnly_exits_cachedAccessToken (request : TokenRequest) (tenantId : String) :
    RaisesOnly PyError.Exits (cachedAccessToken host.services request tenantId) := by
  refine raisesOnly_get.bind fun s ↦ ?_
  split
  · exact (raisesOnly_modify _).bind fun _ ↦ raisesOnly_pure _
  · refine (raisesOnly_exits_liftExcept required_raisesException).bind fun _ ↦
      RaisesOnly.bind ?_ fun token ↦ ?_
    · exact raisesOnly_exits_wrapped
        (raisesOnly_exits_ask fun n e h ↦ host.accessToken_exits n request e h)
    · exact (raisesOnly_modify _).bind fun _ ↦ raisesOnly_pure _

theorem raisesOnly_exits_callApi (method url : String) (accessToken body : Json) :
    RaisesOnly PyError.Exits (callApi host.services method url accessToken body) := by
  refine RaisesOnly.bind ?_ fun _ ↦ RaisesOnly.bind ?_ fun response ↦
    (raisesOnly_modify _).bind fun _ ↦ raisesOnly_pure _
  · refine raisesOnly_exits_ask fun n e h ↦ ?_
    cases hproxy : host.services.proxy n with
    | none => rw [hproxy] at h; exact absurd h.symm error_ne_ok
    | some e' =>
      rw [hproxy] at h
      exact Except.error.inj h ▸ host.proxy_exits n e' hproxy
  · refine raisesOnly_exits_ask fun n e h ↦ ?_
    split at h
    · exact Except.error.inj h ▸ exits_taExecutionFrom _ _
    · exact host.request_exits n _ e h

theorem raisesOnly_addevents {P : PyError → Prop} (sourcetype : String) (raws : List Json) :
    RaisesOnly P (addevents settings sourcetype raws) := by
  intro s
  refine ends_addevents.mono ?_
  rintro _ t ⟨events, rfl, -⟩ e h
  exact absurd h.symm error_ne_ok

theorem raisesOnly_writeevents {P : PyError → Prop} {services : ActionServices}
    (index host source : Option String) (fext : String) :
    RaisesOnly P (writeevents services index host source fext) := by
  intro s
  refine ends_writeevents.mono ?_
  rintro _ t ⟨⟨written, rfl⟩, -⟩ e h
  exact absurd h.symm error_ne_ok

theorem AdvancedHuntingHelper.raisesOnly_exits_huntEvent {helper : AdvancedHuntingHelper}
    (vars : HuntVars) (num : ℕ) (row : Row) :
    RaisesOnly PyError.Exits (helper.huntEvent host.services vars num row) := by
  have hsource (event : Row) : RaisesException (eventSource event) := by
    rw [eventSource]
    split
    · exact raisesException_ok _
    · exact raisesException_error rfl
    · exact raisesException_ok _
  refine (raisesOnly_exits_preHandle num row).bind fun event ↦
    (raisesOnly_exits_liftExcept (hsource event)).bind fun source ↦
    (raisesOnly_exits_liftExcept required_raisesException).bind fun tenantId ↦
    (raisesOnly_exits_liftExcept (getUrlsByEnvironment_raisesException _ _)).bind fun urls ↦
    (raisesOnly_exits_cachedAccessToken _ _).bind fun accessToken ↦
    (raisesOnly_exits_wrapped ?_).bind fun events ↦
    (raisesOnly_writeevents _ _ _ _).bind fun _ ↦ raisesOnly_pure _
  refine RaisesOnly.bind ?_ fun results ↦ raisesOnly_addevents _ _
  exact (raisesOnly_exits_callApi _ _ _ _).bind fun response ↦
    (raisesOnly_exits_liftExcept (asObject_raisesException _)).bind fun object ↦
    raisesOnly_exits_liftExcept (Json.iter_raisesException _)

theorem AdvancedHuntingHelper.raisesOnly_exits_processEvents {helper : AdvancedHuntingHelper}
    (rows : List Row) : RaisesOnly PyError.Exits (helper.processEvents host.services rows) := by
  have heach (vars : HuntVars) (num : ℕ) :
      RaisesOnly PyError.Exits (helper.huntEach host.services vars num rows) := by
    induction rows generalizing vars num with
    | nil => exact raisesOnly_pure _
    | cons row rows ih =>
      exact (raisesOnly_exits_huntEvent vars num row).bind fun next ↦
        (ih next.1 (num + 1)).bind fun _ ↦ raisesOnly_pure _
  exact (heach _ _).bind fun _ ↦ raisesOnly_pure _

theorem UpdateIncidentHelper.raisesOnly_exits_updateEvent {helper : UpdateIncidentHelper}
    (vars : UpdateVars) (num : ℕ) (row : Row) :
    RaisesOnly PyError.Exits (helper.updateEvent host.services vars num row) := by
  refine (raisesOnly_exits_preHandle num row).bind fun event ↦
    (raisesOnly_exits_liftExcept required_raisesException).bind fun tenantId ↦
    (raisesOnly_exits_liftExcept (getUrlsByEnvironment_raisesException _ _)).bind fun urls ↦
    (raisesOnly_exits_cachedAccessToken _ _).bind fun accessToken ↦ ?_
  dsimp only
  split
  · refine (raisesOnly_exits_wrapped ?_).bind fun _ ↦ raisesOnly_pure _
    refine (raisesOnly_exits_callApi _ _ _ _).bind fun response ↦
      (raisesOnly_exits_liftExcept (asObject_raisesException _)).bind fun object ↦ ?_
    split
    · exact (raisesOnly_exits_liftExcept (Json.iter_raisesException _)).bind fun alerts ↦
        (raisesOnly_addevents _ _).bind fun _ ↦ (raisesOnly_addevents _ _).bind fun _ ↦
        raisesOnly_pure _
    · exact raisesOnly_addevents _ _
  · exact raisesOnly_pure _

theorem UpdateIncidentHelper.raisesOnly_exits_processEvents {helper : UpdateIncidentHelper}
    (rows : List Row) : RaisesOnly PyError.Exits (helper.processEvents host.services rows) := by
  have heach (vars : UpdateVars) (num : ℕ) :
      RaisesOnly PyError.Exits (helper.updateEach host.services vars num rows) := by
    induction rows generalizing vars num with
    | nil => exact raisesOnly_pure _
    | cons row rows ih =>
      exact (raisesOnly_exits_updateEvent vars num row).bind fun next ↦
        (ih next.1 (num + 1)).bind fun _ ↦ raisesOnly_pure _
  refine (heach _ _).bind fun updated ↦ ?_
  dsimp only
  split
  · exact (raisesOnly_writeevents _ _ _ _).bind fun _ ↦ raisesOnly_pure _
  · exact raisesOnly_pure _

end Raises

/-! ## What the script makes of it -/

/-- The helper of the script fails like the steps do, and otherwise returns 0. -/
structure ActionScript.Sound {H : Type} (script : ActionScript H) : Prop where
  init : ∀ worker e, script.init worker = .error e → e.Exits
  raises : ∀ helper rows, RaisesOnly PyError.Exits (script.processEvents helper rows)
  returns : ∀ helper rows s status t,
    script.processEvents helper rows s = .ok status t → status = 0

namespace ActionScript

variable {H : Type} {script : ActionScript H} {host : ActionHost} {helper helper' : H}
  {rows rows' : List Row} {s s' t t' : ActionState} {status : ℤ}

theorem raisesOnly_exits_processEvent (hsound : script.Sound) (worker : Worker) :
    RaisesOnly PyError.Exits (script.processEvent host worker) := by
  have hevents : RaisesOnly PyError.Exits (getEvents host) := by
    rw [getEvents]
    cases hresults : host.results with
    | ok results => exact raisesOnly_pure _
    | error e =>
      refine raisesOnly_throw ?_
      split_ifs
      · exact fun h ↦ absurd (PyError.systemExit.inj h) (by decide)
      · exact host.results_exits e hresults
  have hhelper : RaisesOnly PyError.Exits (script.helperProcessEvent host worker) :=
    raisesOnly_exits_wrapped ((raisesOnly_liftExcept (hsound.init worker)).bind fun helper ↦
      hevents.bind fun events ↦ hsound.raises helper events)
  refine hhelper.exceptWith (fun e _ ↦ ?_) fun _ he _ ↦ he
  split_ifs
  · exact raisesOnly_throw (exits_taExecutionFrom e 4)
  · exact raisesOnly_throw (exits_taExecutionFrom e 5)

theorem exitStatus_ne_zero {e : PyError} (he : e.Exits) (hnot : e.isException = false) :
    e.exitStatus ≠ 0 := by
  cases e with
  | systemExit code => exact fun h ↦ he (congrArg PyError.systemExit h)
  | _ => cases hnot

theorem raisesOnly_main (hsound : script.Sound) :
    RaisesOnly (fun e ↦ e.exitStatus ≠ 0) (script.main host) := by
  refine (raisesOnly_liftExcept host.worker_exits).bind fun worker ↦ ?_
  refine RaisesOnly.bind ?_ fun _ ↦ RaisesOnly.bind ?_ fun _ ↦ ?_
  · rw [validateInputParams]
    split_ifs
    · exact raisesOnly_throw (show (1 : ℤ) ≠ 0 by decide)
    · exact raisesOnly_pure _
  · have hlevel : RaisesOnly PyError.Exits (attempt host.logLevel : Action Unit) := by
      refine raisesOnly_liftExcept fun e h ↦ ?_
      cases hlogLevel : host.logLevel with
      | none => rw [hlogLevel] at h; exact absurd h.symm error_ne_ok
      | some e' => rw [hlogLevel] at h; exact Except.error.inj h ▸ host.logLevel_exits e' hlogLevel
    exact hlevel.exceptWith (fun _ _ ↦ raisesOnly_throw (show (2 : ℤ) ≠ 0 by decide))
      fun e he hnot ↦ exitStatus_ne_zero he hnot
  · have hmeta : RaisesOnly PyError.Exits (prepareMetaForCam host worker) := by
      refine (raisesOnly_liftExcept host.metaResults_exits).bind fun results ↦ ?_
      split
      · exact raisesOnly_pure _
      · exact raisesOnly_exits_updateIds _
    refine (hmeta.bind fun _ ↦ raisesOnly_exits_processEvent hsound worker).exceptWith
      (fun e _ ↦ ?_) fun e he hnot ↦ exitStatus_ne_zero he hnot
    split_ifs
    · exact raisesOnly_throw (show (2 : ℤ) ≠ 0 by decide)
    · exact raisesOnly_throw (show (2 : ℤ) ≠ 0 by decide)

/-- No layer returns after a failure. -/
theorem exists_finishes_of_main (h : script.main host newAction = .ok status t) :
    ∃ helper rows s, script.Finishes host helper rows s t ∧
      script.processEvents helper rows s = .ok status t := by
  obtain ⟨worker, s₁, hlift, hrun⟩ := bind_eq_ok_iff_exists.mp h
  obtain ⟨hworker, rfl⟩ := liftExcept_eq_ok_iff.mp hlift
  obtain ⟨_, s₂, hvalidate, hrun⟩ := bind_eq_ok_iff_exists.mp hrun
  obtain ⟨_, s₃, hlevel, hrun⟩ := bind_eq_ok_iff_exists.mp hrun
  -- neither check touches the state
  obtain rfl : newAction = s₂ := by
    rw [validateInputParams] at hvalidate
    split_ifs at hvalidate
    · cases hvalidate
    · exact (EStateM.Result.ok.inj hvalidate).2
  obtain ⟨-, rfl⟩ := liftExcept_eq_ok_iff.mp (exceptWith_throw_eq_ok_iff.mp hlevel)
  have hrun := (exceptWith_eq_ok_iff fun e u hthrow ↦ by
    split_ifs at hthrow <;> cases hthrow).mp hrun
  obtain ⟨_, s, hmeta, hprocess⟩ := bind_eq_ok_iff_exists.mp hrun
  have hprocess := (exceptWith_eq_ok_iff fun e u hthrow ↦ by
    split_ifs at hthrow <;> cases hthrow).mp hprocess
  obtain ⟨helper, s₄, hhelper, hevents⟩ :=
    bind_eq_ok_iff_exists.mp (exceptWith_throw_eq_ok_iff.mp hprocess)
  obtain ⟨hinit, rfl⟩ := liftExcept_eq_ok_iff.mp hhelper
  obtain ⟨rows, s₅, hget, hprocessed⟩ := bind_eq_ok_iff_exists.mp hevents
  rw [getEvents] at hget
  cases hresults : host.results with
  | error e => rw [hresults] at hget; cases hget
  | ok results =>
    rw [hresults] at hget
    obtain ⟨rfl, rfl⟩ := EStateM.Result.ok.inj hget
    exact ⟨helper, results, s, ⟨⟨worker, hworker, hinit, hmeta⟩, hresults, ⟨status, hprocessed⟩,
      ⟨status, h⟩⟩, hprocessed⟩

/-- The process exits with 0 exactly if it goes through all its events. -/
theorem exitCode_eq_zero_iff (hsound : script.Sound) : script.exitCode host = 0 ↔
    ∃ helper rows s t, script.Finishes host helper rows s t := by
  rw [exitCode]
  constructor
  · intro h
    cases hmain : script.main host newAction with
    | ok status t =>
      obtain ⟨helper, rows, s, hfinishes, -⟩ := exists_finishes_of_main hmain
      exact ⟨helper, rows, s, t, hfinishes⟩
    | error e t =>
      rw [hmain] at h
      exact absurd h ((raisesOnly_main hsound newAction).of_error hmain e rfl)
  · rintro ⟨_, _, _, t, hfinishes⟩
    obtain ⟨status, hmain⟩ := hfinishes.exits
    obtain ⟨helper, rows, s, -, hprocessed⟩ := exists_finishes_of_main hmain
    rw [hmain]
    exact hsound.returns helper rows s status t hprocessed

theorem Finishes.unique (h : script.Finishes host helper rows s t)
    (h' : script.Finishes host helper' rows' s' t') :
    helper = helper' ∧ rows = rows' ∧ s = s' ∧ t = t' := by
  obtain ⟨worker, hworker, hinit, hmeta⟩ := h.started
  obtain ⟨worker', hworker', hinit', hmeta'⟩ := h'.started
  obtain rfl := Except.ok.inj (hworker.symm.trans hworker')
  obtain ⟨-, rfl⟩ := EStateM.Result.ok.inj (hmeta.symm.trans hmeta')
  obtain ⟨_, hexits⟩ := h.exits
  obtain ⟨_, hexits'⟩ := h'.exits
  exact ⟨Except.ok.inj (hinit.symm.trans hinit'), Except.ok.inj (h.results.symm.trans h'.results),
    rfl, (EStateM.Result.ok.inj (hexits.symm.trans hexits')).2⟩

end ActionScript

theorem sound_defenderAdvancedHunting (host : ActionHost) :
    (defenderAdvancedHunting host).Sound where
  init worker e h := by
    rcases bind_eq_error_iff.mp h with h | ⟨_, -, h⟩
    · exact exits_of_isException (required_raisesException e h)
    rcases bind_eq_error_iff.mp h with h | ⟨_, -, h⟩
    · exact exits_of_isException (required_raisesException e h)
    rcases bind_eq_error_iff.mp h with h | ⟨_, -, h⟩
    · exact host.credentials_exits e h
    rcases bind_eq_error_iff.mp h with h | ⟨_, -, h⟩
    · rw [AdvancedHuntingHelper.init.namedAccount] at h
      split at h
      · cases haccount : host.account with
        | ok account => rw [haccount] at h; exact absurd h.symm error_ne_ok
        | error e' =>
          rw [haccount] at h
          exact Except.error.inj h ▸ host.account_exits e' haccount
      · exact absurd h.symm error_ne_ok
    · exact absurd h.symm error_ne_ok
  raises helper rows := helper.raisesOnly_exits_processEvents rows
  returns helper rows s status t h := by
    obtain ⟨reports, u, -, hreturn⟩ := bind_eq_ok_iff_exists.mp h
    exact (EStateM.Result.ok.inj hreturn).1.symm

theorem sound_defenderUpdateIncident (host : ActionHost) :
    (defenderUpdateIncident host).Sound where
  init worker e h := by
    rcases bind_eq_error_iff.mp h with h | ⟨_, -, h⟩
    · exact host.credentials_exits e h
    · exact absurd h.symm error_ne_ok
  raises helper rows := helper.raisesOnly_exits_processEvents rows
  returns helper rows s status t h := by
    obtain ⟨updated, u, -, hrest⟩ := bind_eq_ok_iff_exists.mp h
    dsimp only at hrest
    split_ifs at hrest
    · obtain ⟨written, v, -, hreturn⟩ := bind_eq_ok_iff_exists.mp hrest
      exact (EStateM.Result.ok.inj hreturn).1.symm
    · exact (EStateM.Result.ok.inj hrest).1.symm

end MsSecurity
