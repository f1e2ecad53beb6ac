import MsSecurity.Account.Login
import MsSecurity.Collector.Requests

/-!
# Error responses

The handlers of `get_atp_alerts_odata` and `get_simulation_report` parse the body of an error
response for the log, before they raise the error again. A body that is not JSON makes the handler
raise what the parser raises, and the error of the response is lost. In the recursion an error
passes the handlers of all enclosing calls; they let it through as the innermost one leaves it.

## Main results

* `Odata.raises_of_failsAfter`: what a call raises that gets to an error response.
* `Requests.raises_httpError_iff`: it is the error of the response exactly when the body is JSON and
  the call for the page is within the recursion limit; for a report, when the body is JSON.
-/

namespace MsSecurity

namespace Odata

/-! ## The handlers -/

@[simp] theorem reraise_reraise (e : OdataError) : reraise (reraise e) = reraise e := by
  cases e with
  | httpError status json => cases json <;> rfl
  | raised e => rfl

/-- The handlers keep the error of a response whose body is JSON, and no other. -/
theorem reraise_httpError_eq_iff {status : ℕ} {json : Except PyError Json} :
    reraise (.httpError status json) = .httpError status json ↔ json.isOk = true := by
  cases json with
  | ok v => exact iff_of_true rfl rfl
  | error e => exact iff_of_false (fun h ↦ nomatch h) (fun h ↦ nomatch h)

/-- A computation ends in this exception. -/
def Raises {α : Type} (x : Paging α) (s : List PageRequest) (e : OdataError) : Prop :=
  Ends x s fun r _ ↦ r = .error e

theorem Raises.iff_eq {α : Type} {x : Paging α} {s : List PageRequest} {e e' : OdataError}
    (h : Raises x s e) : Raises x s e' ↔ e = e' := by
  constructor
  · intro h'
    obtain ⟨r, t, hr, hr'⟩ := (h.and h').exists
    exact Except.error.inj (hr.symm.trans hr')
  · rintro rfl
    exact h

/-! ## A chain of pages up to an error -/

/-- The call gets to a request that is answered with an error status, after `k` pages with a link to
the next. The server may answer by the requests made before. -/
inductive FailsAfter (services : OdataServices) (proxies : Option Proxies) (accessToken : Json)
    (status : ℕ) (json : Except PyError Json) :
    ℕ → String → Option String → List PageRequest → Prop
  | here {url : String} {userAgent : Option String} {past : List PageRequest}
      (answer : services.get past ⟨url, accessToken, nonemptyStr? userAgent, proxies⟩ =
        .errorStatus status json) :
      FailsAfter services proxies accessToken status json 0 url userAgent past
  | page {k : ℕ} {url nextAtpUrl : String} {userAgent : Option String} {past : List PageRequest}
      {alerts : List Json}
      (answer : followUp (services.get past ⟨url, accessToken, nonemptyStr? userAgent, proxies⟩) =
        .ok (alerts, some nextAtpUrl))
      (rest : FailsAfter services proxies accessToken status json k nextAtpUrl none
        (past ++ [⟨url, accessToken, nonemptyStr? userAgent, proxies⟩])) :
      FailsAfter services proxies accessToken status json (k + 1) url userAgent past

/-- **What leaves the call.** The innermost handler decides, unless the request is never made. -/
theorem raises_of_failsAfter {services : OdataServices} {proxies : Option Proxies}
    (hproxy : services.proxy = .ok proxies) {accessToken : Json} {status : ℕ}
    {json : Except PyError Json} {k : ℕ} {url : String} {userAgent : Option String}
    {s : List PageRequest}
    (h : FailsAfter services proxies accessToken status json k url userAgent s) (depth : ℕ) :
    Raises (getAtpAlertsOdata services accessToken depth url userAgent) s
      (if k < depth then reraise (.httpError status json) else recursionError) := by
  induction h generalizing depth with
  | here answer =>
    cases depth with
    | zero => exact rfl
    | succ depth =>
      rw [Raises, ends_getAtpAlertsOdata_succ hproxy, answer, if_pos (Nat.succ_pos depth)]
      rfl
  | @page k _ _ _ _ _ answer rest ih =>
    cases depth with
    | zero => exact rfl
    | succ depth =>
      rw [Raises, ends_getAtpAlertsOdata_succ hproxy, answer]
      refine (ih depth).mono fun r t hr ↦ ?_
      by_cases hk : k < depth
      · rw [hr, if_pos hk, if_pos (Nat.succ_lt_succ hk)]
        exact congrArg Except.error (reraise_reraise _)
      · rw [hr, if_neg hk, if_neg (mt Nat.lt_of_succ_lt_succ hk)]
        rfl

end Odata

namespace Requests

open Odata

theorem raises_getSimulationReport {services : IterationServices} {proxies : Option Proxies}
    (hproxy : services.proxy = .ok proxies) {accessToken : Json} {url : String}
    {s : List PageRequest} {status : ℕ} {json : Except PyError Json}
    (answer : services.get s ⟨url, accessToken, some (userAgent services), proxies⟩ =
      .errorStatus status json) :
    Raises (getSimulationReport services accessToken url) s (reraise (.httpError status json)) := by
  have hget : services.odata.get s ⟨url, accessToken, some (userAgent services), proxies⟩ =
      .errorStatus status json := answer
  rw [Raises, getSimulationReport, ends_bind, ends_raising, hproxy]
  dsimp only [Except.mapError]
  rw [ends_tryCatch_reraise, ends_getPage, hget]
  rfl

/-- **The error of the response.** A chain of pages ends in it exactly when the body of the response
is JSON and the request is within the recursion limit, a report exactly when the body is JSON. -/
theorem raises_httpError_iff {services : IterationServices} {proxies : Option Proxies}
    (hproxy : services.proxy = .ok proxies) {accessToken : Json} {k : ℕ} {url : String}
    {userAgent' : Option String} {s : List PageRequest} {status : ℕ} {json : Except PyError Json}
    (h : FailsAfter services.odata proxies accessToken status json k url userAgent' s)
    {reportUrl : String} {s' : List PageRequest} {status' : ℕ} {json' : Except PyError Json}
    (answer : services.get s' ⟨reportUrl, accessToken, some (userAgent services), proxies⟩ =
      .errorStatus status' json') :
    (Raises (Odata.getAtpAlertsOdata services.odata accessToken services.depth url userAgent') s
        (.httpError status json) ↔ json.isOk = true ∧ k < services.depth) ∧
      (Raises (getSimulationReport services accessToken reportUrl) s' (.httpError status' json') ↔
        json'.isOk = true) := by
  refine ⟨?_, ?_⟩
  · rw [(raises_of_failsAfter hproxy h services.depth).iff_eq]
    by_cases hk : k < services.depth
    · rw [if_pos hk, reraise_httpError_eq_iff]
      simp [hk]
    · rw [if_neg hk]
      exact iff_of_false (fun h ↦ nomatch h) fun h ↦ hk h.2
  · rw [(raises_getSimulationReport hproxy answer).iff_eq, reraise_httpError_eq_iff]

/-! ## Two bodies -/

/-- A server whose second page, like everything else, is an error with this body. -/
def failingServer (json : Except PyError Json) : Server := fun url ↦
  if url = "https://api.security.microsoft.com/api/alerts" then
    onePage "da1" [("odata.nextLink", .str "https://api.security.microsoft.com/api/alerts?$skip=1")]
  else .errorStatus 500 json

def servedBy (server : Server) : IterationServices where
  toLoginServices := answering grant
  get := fun _ request ↦ server request.url
  depth := 900
  hunt := fun _ ↦ .ok .null
  readCheckpoint := none
  defaultStartDate := "2023-12-02T00:00:00Z"
  updateConf := none
  today := "2024-01-01T00:00:00Z"
  writeEvent := fun _ _ ↦ none
  handlerRead := none
  handlerUpdate := .stored

/-- A call for both pages. -/
def callFor (json : Except PyError Json) : Paging (List Json) :=
  Odata.getAtpAlertsOdata (servedBy (failingServer json)).odata (.str "token") 900
    "https://api.security.microsoft.com/api/alerts" none

/-- A call for a report. -/
def reportFor (json : Except PyError Json) : Paging Json :=
  getSimulationReport (servedBy (failingServer json)) (.str "token")
    "https://graph.microsoft.com/report"

private theorem failsAfter_failingServer (json : Except PyError Json) :
    FailsAfter (servedBy (failingServer json)).odata none (.str "token") 500 json 1
      "https://api.security.microsoft.com/api/alerts" none [] := by
  have answer : followUp (failingServer json "https://api.security.microsoft.com/api/alerts") =
      .ok ([.obj [("id", .str "da1")]],
        some "https://api.security.microsoft.com/api/alerts?$skip=1") := rfl
  exact .page answer (.here rfl)

private theorem get_failingServer_report (json : Except PyError Json) :
    (servedBy (failingServer json)).get [] ⟨"https://graph.microsoft.com/report", .str "token",
      some (userAgent (servedBy (failingServer json))), none⟩ = .errorStatus 500 json := rfl

/-- The API describes its errors in JSON. -/
theorem raises_httpError_json :
    Raises (callFor (.ok (.obj []))) [] (.httpError 500 (.ok (.obj []))) ∧
      Raises (reportFor (.ok (.obj []))) [] (.httpError 500 (.ok (.obj []))) := by
  obtain ⟨hpages, hreport⟩ := raises_httpError_iff rfl
    (failsAfter_failingServer (.ok (.obj []))) (get_failingServer_report (.ok (.obj [])))
  exact ⟨hpages.mpr ⟨rfl, by decide⟩, hreport.mpr rfl⟩

/-- A gateway on the way may not. -/
theorem not_raises_httpError :
    ¬Raises (callFor (.error (.other "JSONDecodeError"))) []
        (.httpError 500 (.error (.other "JSONDecodeError"))) ∧
      ¬Raises (reportFor (.error (.other "JSONDecodeError"))) []
        (.httpError 500 (.error (.other "JSONDecodeError"))) := by
  have hpages : Raises (callFor (.error (.other "JSONDecodeError"))) []
      (.raised (.other "JSONDecodeError")) :=
    raises_of_failsAfter rfl (failsAfter_failingServer _) 900
  have hreport : Raises (reportFor (.error (.other "JSONDecodeError"))) []
      (.raised (.other "JSONDecodeError")) :=
    raises_getSimulationReport rfl (get_failingServer_report _)
  rw [hpages.iff_eq, hreport.iff_eq]
  exact ⟨nofun, nofun⟩

end Requests

end MsSecurity
