import MsSecurity.AlertAction.UpdateIncident
import MsSecurity.Collector.Cursor

/-!
# An incident and its alerts

Two paths split an incident into its alerts and the rest. The collector iterates over the value
under `alerts` and deletes it; `update_incident` does so only if the value is true, and otherwise
keeps the incident as it came. The two agree exactly on incidents that have alerts
(`splitAlike_iff`): without the key, or with `null` under it, the collector raises, and an empty
list stays in the incident on the other path.
-/

namespace MsSecurity

/-! ## The two paths -/

/-- What the incidents collector writes for one incident. -/
def collectedPayloads (services : Services) (item : InputItem) (tenantId maxDate : String)
    (incident : Json.Object) (w : World) : Except PyError (List Json) :=
  match ingest services .incidents item tenantId [.obj incident] maxDate w with
  | .ok _ w' => .ok ((w'.index.drop w.index.length).map Event.data)
  | .error e _ => .error e

/-- What `update_incident` adds to the buffer. -/
def updatedPayloads (helper : UpdateIncidentHelper) (services : ActionServices)
    (accessToken : Json) (incidentUrl : String) (s : ActionState) : Except PyError (List Json) :=
  match helper.updateIncident services accessToken incidentUrl s with
  | .ok _ t => .ok ((t.events.drop s.events.length).map ActionEvent.raw)
  | .error e _ => .error e

/-- The alerts of an incident. -/
def alertsOf (incident : Json.Object) : List Json :=
  match incident.get "alerts" with
  | some (.arr alerts) => alerts
  | _ => []

/-- Each alert once, in order, and then the incident without its alerts. -/
def splitIncident (incident : Json.Object) : List Json :=
  alertsOf incident ++ [.obj (incident.del "alerts")]

/-! ## What the collector writes -/

section Collected

variable {services : Services} {item : InputItem} {tenantId maxDate : String} {w : World}

theorem writeEvent_eq_ok (hwrite : ∀ index event, services.writeEvent index event = none)
    (event : Event) :
    writeEvent services event w = .ok () { w with index := w.index ++ [event] } := by
  rw [writeEvent, bind_eq_ok_iff_exists]
  refine ⟨w, w, rfl, bind_eq_ok_iff_exists.mpr ⟨(), w, ?_, rfl⟩⟩
  rw [hwrite]
  rfl

theorem writeEvents_eq_ok (hwrite : ∀ index event, services.writeEvent index event = none)
    (events : List Event) :
    writeEvents services events w = .ok () { w with index := w.index ++ events } := by
  induction events generalizing w with
  | nil =>
    rw [List.append_nil]
    rfl
  | cons event events ih =>
    rw [writeEvents, bind_eq_ok_iff_exists]
    refine ⟨(), _, writeEvent_eq_ok hwrite event, ?_⟩
    rw [ih, List.append_assoc, List.singleton_append]

/-- The collector raises where there is nothing under `alerts` to iterate over. -/
theorem collectedPayloads_eq (hwrite : ∀ index event, services.writeEvent index event = none)
    {incident : Json.Object} {date : String}
    (hdate : Collector.incidents.lastUpdate incident = .str date) (hne : date ≠ "") :
    collectedPayloads services item tenantId maxDate incident w =
      (incident.getItem "alerts" >>= Json.iter).map (· ++ [.obj (incident.del "alerts")]) := by
  have hrequired : required Json.truthy? (Collector.incidents.lastUpdate incident)
      "Field denoting last update not found in the API response" "" = .ok (.str date) := by
    rw [required_eq_ok_iff, hdate, Json.truthy?, if_pos (by simpa using hne)]
  have hingest : ingest services .incidents item tenantId [.obj incident] maxDate w =
      (do
        let alerts ← liftExcept (incident.getItem "alerts")
        let alerts ← liftExcept alerts.iter
        writeEvents services (alerts.map (incidentAlertEvent item tenantId))
        writeEvent services (incidentEvent item tenantId incident)
        return if maxDate < date then date else maxDate) w := by
    simp only [ingest, asObject, hrequired, laterDate, liftExcept_ok_bind, writeRecord, bind_assoc]
  rw [collectedPayloads, hingest]
  cases incident.getItem "alerts" with
  | error e => rfl
  | ok alerts =>
    change _ = (alerts.iter).map _
    rw [liftExcept_ok_bind]
    cases alerts.iter with
    | error e => rfl
    | ok alerts =>
      have hwritten (date : String) :
          (do
            writeEvents services (alerts.map (incidentAlertEvent item tenantId))
            writeEvent services (incidentEvent item tenantId incident)
            return date : Collect String) w = .ok date { w with index := w.index ++
              (alerts.map (incidentAlertEvent item tenantId) ++
                [incidentEvent item tenantId incident]) } := by
        rw [bind_eq_ok_iff_exists]
        refine ⟨(), _, writeEvents_eq_ok hwrite _, bind_eq_ok_iff_exists.mpr ⟨(), _, ?_, rfl⟩⟩
        rw [writeEvent_eq_ok hwrite, List.append_assoc]
      rw [liftExcept_ok_bind, hwritten]
      dsimp only
      rw [List.drop_left, List.map_append, List.map_map]
      exact congrArg Except.ok (congrArg (· ++ _) (List.map_id alerts))

end Collected

/-! ## What the action adds to the buffer -/

section Updated

variable {helper : UpdateIncidentHelper} {services : ActionServices} {accessToken : Json}
  {incidentUrl : String} {s s₁ : ActionState} {incident : Json.Object}

theorem updatedPayloads_eq (hresponse : callApi services "PATCH" incidentUrl accessToken
      (.obj helper.data) s = .ok (.obj incident) s₁) :
    updatedPayloads helper services accessToken incidentUrl s = answerPayloads incident := by
  have hends := UpdateIncidentHelper.ends_updateIncident_answered hresponse
  rw [updatedPayloads]
  cases hrun : helper.updateIncident services accessToken incidentUrl s with
  | ok events t =>
    obtain ⟨hpayloads, hgains⟩ := hends.of_ok hrun
    have hkept := (keeps_callApi _ _ _ _ s).of_ok hresponse
    dsimp only
    rw [← hpayloads, (hgains events rfl).events, hkept.events, List.drop_left]
    rfl
  | error e t => exact (hends.of_error hrun).1

end Updated

/-! ## Agreement -/

/-- Both paths split the incident, and in the same way. -/
def SplitAlike (services : Services) (item : InputItem) (tenantId maxDate : String) (w : World)
    (helper : UpdateIncidentHelper) (actions : ActionServices) (accessToken : Json)
    (incidentUrl : String) (s : ActionState) (incident : Json.Object) : Prop :=
  collectedPayloads services item tenantId maxDate incident w = .ok (splitIncident incident) ∧
    updatedPayloads helper actions accessToken incidentUrl s = .ok (splitIncident incident)

/-- **The collector and the action split an incident alike exactly if it has alerts.** -/
theorem splitAlike_iff {services : Services} {item : InputItem} {tenantId maxDate : String}
    {w : World} {helper : UpdateIncidentHelper} {actions : ActionServices} {accessToken : Json}
    {incidentUrl : String} {s s₁ : ActionState} {incident : Json.Object} {date : String}
    (hwrite : ∀ index event, services.writeEvent index event = none)
    (hresponse : callApi actions "PATCH" incidentUrl accessToken (.obj helper.data) s =
      .ok (.obj incident) s₁)
    (hdate : Collector.incidents.lastUpdate incident = .str date) (hne : date ≠ "")
    (halerts : incident.get "alerts" = none ∨ incident.get "alerts" = some .null ∨
      ∃ alerts, incident.get "alerts" = some (.arr alerts)) :
    SplitAlike services item tenantId maxDate w helper actions accessToken incidentUrl s
      incident ↔ ∃ alert alerts, incident.get "alerts" = some (.arr (alert :: alerts)) := by
  rw [SplitAlike, collectedPayloads_eq hwrite hdate hne, updatedPayloads_eq hresponse,
    answerPayloads, splitIncident, alertsOf, Dict.getItem, Json.Object.getD]
  constructor
  · rintro ⟨hcollected, hupdated⟩
    rcases halerts with hnone | hnull | ⟨alerts, harr⟩
    · rw [hnone] at hcollected
      exact absurd hcollected error_ne_ok
    · rw [hnull] at hcollected
      exact absurd hcollected error_ne_ok
    · cases alerts with
      | cons alert alerts => exact ⟨alert, alerts, harr⟩
      | nil =>
        -- the action adds the incident as it came, with the empty list in it
        rw [harr] at hupdated
        have hincident : incident = incident.del "alerts" :=
          Json.obj.inj (List.singleton_inj.mp (Except.ok.inj hupdated))
        have hdel := Dict.get_del incident "alerts"
        rw [← hincident, harr] at hdel
        cases hdel
  · rintro ⟨alert, alerts, harr⟩
    rw [harr]
    exact ⟨rfl, rfl⟩

/-! ## An incident with an alert, and one without -/

/-- Every update is answered with the incident. -/
def answeredWith (incident : Json.Object) : ActionServices :=
  { answered with request := fun _ _ ↦ .ok (.obj incident) }

def incidentWithAlert : Json.Object :=
  [("incidentId", .int 1), ("lastUpdateTime", .str "2024-01-01T00:00:00Z"),
    ("alerts", .arr [.obj [("alertId", .str "da1")]])]

def incidentWithoutAlerts : Json.Object :=
  [("incidentId", .int 1), ("lastUpdateTime", .str "2024-01-01T00:00:00Z")]

theorem splitAlike_incidentWithAlert :
    SplitAlike (.handingOut []) generalItem "t1" "" worldAtMidnight someUpdate
        (answeredWith incidentWithAlert) (.str "token") "https://api.security.microsoft.com"
        newAction incidentWithAlert ↔
      ∃ alert alerts, incidentWithAlert.get "alerts" = some (.arr (alert :: alerts)) :=
  splitAlike_iff (fun _ _ ↦ rfl) rfl rfl (by decide) (Or.inr (Or.inr ⟨_, rfl⟩))

/-- The collector stops at an incident that the action takes as it is. -/
theorem not_splitAlike :
    collectedPayloads (.handingOut []) generalItem "t1" "" incidentWithoutAlerts worldAtMidnight =
        .error (.keyError "alerts") ∧
      updatedPayloads someUpdate (answeredWith incidentWithoutAlerts) (.str "token")
        "https://api.security.microsoft.com" newAction =
        .ok (splitIncident incidentWithoutAlerts) :=
  ⟨rfl, rfl⟩

end MsSecurity
