import MsSecurity.Account.AccessToken
import MsSecurity.Python.Effect

/-!
# Pages of an API response

`get_atp_alerts_odata` asks for one page of records, and calls itself when the page has a link to
the next one. The state is the list of the requests made, so that it can be said which requests a
call makes whichever way it ends; the server may answer by what was asked before.

The recursion is as deep as the chain of pages is long. The interpreter allows so many nested calls
and raises `RecursionError` at the next; the number that is left is a parameter here.

## Main results

* `Odata.ends_getAtpAlertsOdata_of_chain`: along a chain of pages the call makes one request for
  each and returns the records of the first.
* `Odata.returns_flatten_iff`: it returns the records of all pages exactly when the others have
  none.
-/

namespace MsSecurity

/-- `is_https`. -/
def isHttps (url : String) : Bool := "https://".toList.isPrefixOf url.toList

namespace Odata

/-! ## Requests and answers -/

/-- A request for a page. -/
structure PageRequest where
  url : String
  /-- The `Authorization` header is `Bearer` and this token. -/
  accessToken : Json
  /-- The `User-Agent` header, when there is one. -/
  userAgent : Option String
  proxies : Option Proxies

/-- How a request for a page ends. `json` is what `.json()` does to the body of the response. -/
inductive PageAnswer
  | success (json : Except PyError Json)
  | errorStatus (status : ℕ) (json : Except PyError Json)
  /-- There is no response. -/
  | raised (e : PyError)

/-- The exceptions of `get_atp_alerts_odata`: an `HTTPError` carries its response. -/
inductive OdataError
  | httpError (status : ℕ) (json : Except PyError Json)
  | raised (e : PyError)

/-- The exception without the response it carries. -/
def OdataError.toPyError : OdataError → PyError
  | .httpError status _ => .httpError status
  | .raised e => e

/-- What a call gets from outside; a page is asked for after the requests made so far. -/
structure OdataServices where
  /-- `get_proxy`, whose answer is cached. -/
  proxy : Except PyError (Option Proxies)
  get : List PageRequest → PageRequest → PageAnswer

/-- A function of the requests made, that may raise. -/
abbrev Paging := EStateM OdataError (List PageRequest)

/-! ## The function -/

/-- A step that raises an exception other than `HTTPError`. -/
def raising {α : Type} (x : Except PyError α) : Paging α := liftExcept (x.mapError .raised)

/-- `requests.get`, `raise_for_status` and `json`. -/
def getPage (services : OdataServices) (request : PageRequest) : Paging Json := do
  let past ← get
  set (past ++ [request])
  match services.get past request with
  | .success json => raising json
  | .errorStatus status json => throw (.httpError status json)
  | .raised e => throw (.raised e)

/-- The two handlers: the body of an `HTTPError` is parsed for the log before it is raised again. -/
def reraise : OdataError → OdataError
  | .httpError status (.ok json) => .httpError status (.ok json)
  | .httpError _ (.error e) => .raised e
  | .raised e => .raised e

/-- The link to the next page, if the page has one: it has to be an https URL. -/
def nextUrl (link : Json) : Except PyError String :=
  match link with
  | .str url => if isHttps url then .ok url else
      .error (.valueError ("nextLink scheme is not HTTPS. nextLink_URL=" ++ url))
  | _ => .error .attributeError

/-- The exception of a call past the recursion limit. -/
def recursionError : OdataError := .raised (.other "RecursionError")

/-- `get_atp_alerts_odata`, with `depth` nested calls left. The records that the call for the next
page returns are dropped, and that call is made without the user agent. -/
def getAtpAlertsOdata (services : OdataServices) (accessToken : Json) :
    ℕ → String → Option String → Paging (List Json)
  | 0, _, _ => throw recursionError
  | depth + 1, url, userAgent => do
    let proxies ← raising services.proxy
    tryCatch (do
      let responseJson ← getPage services ⟨url, accessToken, nonemptyStr? userAgent, proxies⟩
      let value ← raising (responseJson.item "value")
      let alerts ← raising value.iter
      match responseJson.item "odata.nextLink" with
      | .ok link => do
        let nextAtpUrl ← raising (nextUrl link)
        let _ ← getAtpAlertsOdata services accessToken depth nextAtpUrl none
        return alerts
      | .error _ => return alerts)
      fun e ↦ throw (reraise e)

theorem isHttps_of_nextUrl {link : Json} {url : String} (h : nextUrl link = .ok url) :
    isHttps url = true := by
  cases link with
  | str url' =>
    rw [nextUrl] at h
    split at h
    next hhttps =>
      cases h
      exact hhttps
    next => cases h
  | _ => cases h

/-! ## Rules -/

section Rules

variable {services : OdataServices} {α : Type} {s : List PageRequest}

@[simp] theorem ends_raising {x : Except PyError α}
    {Q : Except OdataError α → List PageRequest → Prop} :
    Ends (raising x) s Q ↔ Q (x.mapError .raised) s := ends_liftExcept _

theorem ends_getPage {request : PageRequest}
    {Q : Except OdataError Json → List PageRequest → Prop} :
    Ends (getPage services request) s Q ↔ Q (match services.get s request with
      | .success json => json.mapError .raised
      | .errorStatus status json => .error (.httpError status json)
      | .raised e => .error (.raised e)) (s ++ [request]) := by
  unfold getPage
  rw [ends_get_bind, ends_bind]
  change Ends _ (s ++ [request]) Q ↔ _
  cases services.get s request with
  | success json => exact ends_raising
  | errorStatus status json => exact Iff.rfl
  | raised e => exact Iff.rfl

/-- The handlers leave the end of a call in place, up to the exception it raises. -/
theorem ends_tryCatch_reraise {x : Paging α} {Q : Except OdataError α → List PageRequest → Prop} :
    Ends (tryCatch x fun e ↦ throw (reraise e)) s Q ↔
      Ends x s fun r t ↦ Q (r.mapError reraise) t := by
  rw [ends_tryCatch]
  refine iff_of_eq (congrArg (Ends x s) (funext fun r ↦ funext fun t ↦ ?_))
  cases r <;> rfl

end Rules

/-! ## One level of the recursion -/

/-- What a level makes of a page: its records, and the link to the next page if there is one. -/
def followPage (responseJson : Json) : Except PyError (List Json × Option String) :=
  match responseJson.item "value" with
  | .error e => .error e
  | .ok value => match value.iter with
    | .error e => .error e
    | .ok alerts => match responseJson.item "odata.nextLink" with
      | .error _ => .ok (alerts, none)
      | .ok link => (nextUrl link).map fun nextAtpUrl ↦ (alerts, some nextAtpUrl)

/-- What a level makes of the answer to its request. -/
def followUp : PageAnswer → Except OdataError (List Json × Option String)
  | .success (.ok responseJson) => (followPage responseJson).mapError .raised
  | .success (.error e) => .error (.raised e)
  | .errorStatus status json => .error (.httpError status json)
  | .raised e => .error (.raised e)

theorem isHttps_of_followPage {responseJson : Json} {alerts : List Json} {url : String}
    (h : followPage responseJson = .ok (alerts, some url)) : isHttps url = true := by
  rw [followPage] at h
  split at h
  · cases h
  split at h
  · cases h
  split at h
  · cases h
  next link _ =>
    cases hurl : nextUrl link with
    | error e =>
      rw [hurl] at h
      cases h
    | ok url' =>
      rw [hurl] at h
      cases h
      exact isHttps_of_nextUrl hurl

theorem isHttps_of_followUp {answer : PageAnswer} {alerts : List Json} {url : String}
    (h : followUp answer = .ok (alerts, some url)) : isHttps url = true := by
  rw [followUp.eq_def] at h
  split at h
  next responseJson =>
    cases hpage : followPage responseJson with
    | error e =>
      rw [hpage] at h
      cases h
    | ok page =>
      rw [hpage] at h
      cases h
      exact isHttps_of_followPage hpage
  all_goals cases h

/-- One level, when the proxy settings can be read. -/
theorem ends_getAtpAlertsOdata_succ {services : OdataServices} {proxies : Option Proxies}
    (hproxy : services.proxy = .ok proxies) {accessToken : Json} {depth : ℕ} {url : String}
    {userAgent : Option String} {s : List PageRequest}
    {Q : Except OdataError (List Json) → List PageRequest → Prop} :
    Ends (getAtpAlertsOdata services accessToken (depth + 1) url userAgent) s Q ↔
      match followUp (services.get s ⟨url, accessToken, nonemptyStr? userAgent, proxies⟩) with
      | .error e => Q (.error (reraise e))
          (s ++ [⟨url, accessToken, nonemptyStr? userAgent, proxies⟩])
      | .ok (alerts, none) => Q (.ok alerts)
          (s ++ [⟨url, accessToken, nonemptyStr? userAgent, proxies⟩])
      | .ok (alerts, some nextAtpUrl) =>
        Ends (getAtpAlertsOdata services accessToken depth nextAtpUrl none)
          (s ++ [⟨url, accessToken, nonemptyStr? userAgent, proxies⟩])
          fun r t ↦ Q ((r.map fun _ ↦ alerts).mapError reraise) t := by
  rw [getAtpAlertsOdata, ends_bind, ends_raising, hproxy]
  dsimp only [Except.mapError]
  rw [ends_tryCatch_reraise, ends_bind, ends_getPage]
  cases services.get s ⟨url, accessToken, nonemptyStr? userAgent, proxies⟩ with
  | errorStatus status json => exact Iff.rfl
  | raised e => exact Iff.rfl
  | success json =>
    cases json with
    | error e => exact Iff.rfl
    | ok responseJson =>
      dsimp only [followUp, Except.mapError]
      rw [ends_bind, ends_raising, followPage]
      cases responseJson.item "value" with
      | error e => exact Iff.rfl
      | ok value =>
        dsimp only [Except.mapError]
        rw [ends_bind, ends_raising]
        cases value.iter with
        | error e => exact Iff.rfl
        | ok alerts =>
          dsimp only [Except.mapError]
          cases responseJson.item "odata.nextLink" with
          | error e => exact Iff.rfl
          | ok link =>
            dsimp only
            rw [ends_bind, ends_raising]
            cases nextUrl link with
            | error e => exact Iff.rfl
            | ok nextAtpUrl =>
              dsimp only [Except.mapError, Except.map]
              rw [ends_bind]
              refine iff_of_eq (congrArg (Ends _ _) (funext fun r ↦ funext fun t ↦ ?_))
              cases r <;> rfl

theorem ends_getAtpAlertsOdata_of_proxy_error {services : OdataServices} {e : PyError}
    (hproxy : services.proxy = .error e) {accessToken : Json} {depth : ℕ} {url : String}
    {userAgent : Option String} {s : List PageRequest}
    {Q : Except OdataError (List Json) → List PageRequest → Prop} :
    Ends (getAtpAlertsOdata services accessToken (depth + 1) url userAgent) s Q ↔
      Q (.error (.raised e)) s := by
  rw [getAtpAlertsOdata, ends_bind, ends_raising, hproxy]
  exact Iff.rfl

/-- The invariant rule for the requests that follow the first one: they have the token of the call
and https URLs, but no user agent. A call that makes no request leaves the state as it is. -/
theorem ends_getAtpAlertsOdata_of_nested {services : OdataServices} {accessToken : Json}
    {P : List PageRequest → Prop} (hP : ∀ s url proxies, isHttps url = true → P s →
      P (s ++ [⟨url, accessToken, none, proxies⟩])) :
    ∀ (depth : ℕ) (url : String) (userAgent : Option String) (s : List PageRequest),
      (depth = 0 ∨ services.proxy.isOk = false → P s) →
      (∀ proxies, services.proxy = .ok proxies →
        P (s ++ [⟨url, accessToken, nonemptyStr? userAgent, proxies⟩])) →
      Ends (getAtpAlertsOdata services accessToken depth url userAgent) s fun _ t ↦ P t
  | 0, _, _, _ => fun hs _ ↦ hs (.inl rfl)
  | depth + 1, url, userAgent, s => by
    intro hs hfirst
    cases hproxy : services.proxy with
    | error e =>
      rw [ends_getAtpAlertsOdata_of_proxy_error hproxy]
      exact hs (.inr (by rw [hproxy]; rfl))
    | ok proxies =>
      have hfirst := hfirst proxies hproxy
      rw [ends_getAtpAlertsOdata_succ hproxy]
      cases hanswer : followUp (services.get s _) with
      | error e => exact hfirst
      | ok page =>
        obtain ⟨alerts, _ | nextAtpUrl⟩ := page
        · exact hfirst
        · exact ends_getAtpAlertsOdata_of_nested hP depth nextAtpUrl none _ (fun _ ↦ hfirst)
            fun proxies _ ↦ hP _ nextAtpUrl proxies (isHttps_of_followUp hanswer) hfirst

/-- The invariant rule: what a request with the token of the call preserves, the call preserves,
whatever the server answers. -/
theorem ends_getAtpAlertsOdata_of_invariant {services : OdataServices} {accessToken : Json}
    {P : List PageRequest → Prop} (hP : ∀ s url userAgent proxies, P s →
      P (s ++ [⟨url, accessToken, userAgent, proxies⟩])) (depth : ℕ) (url : String)
    (userAgent : Option String) (s : List PageRequest) (hs : P s) :
    Ends (getAtpAlertsOdata services accessToken depth url userAgent) s fun _ t ↦ P t :=
  ends_getAtpAlertsOdata_of_nested (fun s url proxies _ ↦ hP s url none proxies) depth url userAgent
    s (fun _ ↦ hs) fun proxies _ ↦ hP s url _ proxies hs

/-! ## Chains of pages -/

/-- A server that answers by the URL alone. -/
abbrev Server := String → PageAnswer

/-- The services of a call when the proxy settings can be read. -/
def OdataServices.ofServer (proxies : Option Proxies) (server : Server) : OdataServices where
  proxy := .ok proxies
  get := fun _ request ↦ server request.url

/-- The server has the page `fields` at the URL, with these records. -/
structure IsPage (server : Server) (url : String) (fields : Json.Object) (records : List Json) :
    Prop where
  answer : server url = .success (.ok (.obj fields))
  value : Dict.get fields "value" = some (.arr records)

/-- A finite chain of pages, by the URL it starts from: its URLs and the records of each page. -/
inductive Chain (server : Server) : String → List String → List (List Json) → Prop
  | last {url : String} {fields : Json.Object} {records : List Json}
      (page : IsPage server url fields records)
      (hlast : Dict.get fields "odata.nextLink" = none) : Chain server url [url] [records]
  | cons {url next : String} {fields : Json.Object} {records : List Json} {urls : List String}
      {pages : List (List Json)} (page : IsPage server url fields records)
      (hnext : Dict.get fields "odata.nextLink" = some (.str next)) (hhttps : isHttps next = true)
      (rest : Chain server next urls pages) : Chain server url (url :: urls) (records :: pages)

namespace Chain

variable {server : Server} {url : String} {urls : List String} {pages : List (List Json)}

theorem pages_ne_nil (h : Chain server url urls pages) : pages ≠ [] := by
  cases h <;> exact List.cons_ne_nil _ _

end Chain

/-- What a call over a chain of pages returns: the records of the first page, if no nested call is
one too many. -/
def firstPage (depth : ℕ) (pages : List (List Json)) : Except OdataError (List Json) :=
  if pages.length ≤ depth then .ok (pages.headD []) else .error recursionError

theorem IsPage.followUp_eq {server : Server} {url : String} {fields : Json.Object}
    {records : List Json} (page : IsPage server url fields records) :
    followUp (server url) = match Dict.get fields "odata.nextLink" with
      | none => .ok (records, none)
      | some link => ((nextUrl link).mapError .raised).map fun next ↦ (records, some next) := by
  rw [page.answer, followUp, followPage, Json.item, Dict.getItem, page.value]
  dsimp only [Json.iter, Json.item, Dict.getItem]
  cases Dict.get fields "odata.nextLink" with
  | none => rfl
  | some link =>
    dsimp only
    cases nextUrl link with
    | error e => rfl
    | ok next => rfl

/-- **A chain of pages.** A call asks for the pages one after the other, and it is the first page
that its caller gets. -/
theorem ends_getAtpAlertsOdata_of_chain {proxies : Option Proxies} {server : Server} {url : String}
    {urls : List String} {pages : List (List Json)} (h : Chain server url urls pages)
    (accessToken : Json) (depth : ℕ) (userAgent : Option String) (s : List PageRequest) :
    Ends (getAtpAlertsOdata (.ofServer proxies server) accessToken depth url userAgent) s
      fun r t ↦ r = firstPage depth pages ∧
        t.map PageRequest.url = s.map PageRequest.url ++ urls.take depth := by
  induction h generalizing depth userAgent s with
  | last page hlast =>
    cases depth with
    | zero => exact ⟨rfl, by simp⟩
    | succ depth =>
      have hfollow : followUp ((OdataServices.ofServer proxies server).get s
          ⟨_, accessToken, nonemptyStr? userAgent, proxies⟩) = _ := page.followUp_eq
      rw [ends_getAtpAlertsOdata_succ rfl, hfollow, hlast]
      simp [firstPage]
  | @cons url next fields records urls pages page hnext hhttps rest ih =>
    cases depth with
    | zero => exact ⟨rfl, by simp⟩
    | succ depth =>
      have hfollow : followUp ((OdataServices.ofServer proxies server).get s
          ⟨_, accessToken, nonemptyStr? userAgent, proxies⟩) = _ := page.followUp_eq
      rw [ends_getAtpAlertsOdata_succ rfl, hfollow, hnext]
      dsimp only
      rw [nextUrl, if_pos hhttps]
      refine (ih depth none _).mono fun r t ⟨hr, ht⟩ ↦ ?_
      have hurls : t.map PageRequest.url = s.map PageRequest.url ++ (url :: urls).take (depth + 1)
          := by simp [ht]
      by_cases hdepth : pages.length ≤ depth
      · simp [hr, firstPage, hdepth, hurls, Except.map, Except.mapError]
      · simp [hr, firstPage, hdepth, hurls, recursionError, reraise, Except.map, Except.mapError]

/-- A call returns `records`, whatever requests were made before it. -/
def Returns (services : OdataServices) (accessToken : Json) (depth : ℕ) (url : String)
    (userAgent : Option String) (records : List Json) : Prop :=
  ∀ s, Ends (getAtpAlertsOdata services accessToken depth url userAgent) s
    fun r _ ↦ r = .ok records

/-- Over a chain of pages, the call returns the records of all pages exactly when it is not cut off
by the recursion limit and every page but the first is empty. -/
theorem returns_flatten_iff {proxies : Option Proxies} {server : Server} {url : String}
    {urls : List String} {pages : List (List Json)} (h : Chain server url urls pages)
    (accessToken : Json) (depth : ℕ) (userAgent : Option String) :
    Returns (.ofServer proxies server) accessToken depth url userAgent pages.flatten ↔
      pages.length ≤ depth ∧ ∀ records ∈ pages.tail, records = [] := by
  have hreturns : Returns (.ofServer proxies server) accessToken depth url userAgent pages.flatten ↔
      firstPage depth pages = .ok pages.flatten := by
    have hchain : ∀ s, Ends
        (getAtpAlertsOdata (.ofServer proxies server) accessToken depth url userAgent) s _ :=
      ends_getAtpAlertsOdata_of_chain h accessToken depth userAgent
    constructor
    · intro hret
      obtain ⟨r, t, ⟨hr, -⟩, hr'⟩ := ((hchain []).and (hret [])).exists
      exact hr.symm.trans hr'
    · exact fun hfirst s ↦ (hchain s).mono fun r t ht ↦ ht.1.trans hfirst
  rw [hreturns, firstPage]
  obtain ⟨first, others, rfl⟩ := List.exists_cons_of_ne_nil h.pages_ne_nil
  by_cases hdepth : (first :: others).length ≤ depth
  · rw [if_pos hdepth]
    simpa using fun _ ↦ hdepth
  · rw [if_neg hdepth]
    exact iff_of_false error_ne_ok fun hcond ↦ hdepth hcond.1

/-- A page with one record. -/
def onePage (record : String) (link : Json.Object) : PageAnswer :=
  .success (.ok (.obj (("value", .arr [.obj [("id", .str record)]]) :: link)))

/-- Two pages of one record each. -/
def twoPages : Server := fun url ↦
  if url = "https://api.security.microsoft.com/api/alerts" then
    onePage "da1" [("odata.nextLink", .str "https://api.security.microsoft.com/api/alerts?$skip=1")]
  else onePage "da2" []

private theorem chain_twoPages_tail :
    Chain twoPages "https://api.security.microsoft.com/api/alerts?$skip=1"
      ["https://api.security.microsoft.com/api/alerts?$skip=1"] [[.obj [("id", .str "da2")]]] := by
  have page : IsPage twoPages "https://api.security.microsoft.com/api/alerts?$skip=1" _ _ :=
    ⟨rfl, rfl⟩
  exact .last page rfl

theorem returns_flatten_iff_onePage :
    Returns (.ofServer none twoPages) (.str "token") 900
      "https://api.security.microsoft.com/api/alerts?$skip=1" none [.obj [("id", .str "da2")]] :=
  (returns_flatten_iff chain_twoPages_tail _ _ _).mpr ⟨by decide, by simp⟩

/-- The record of the second page is asked for, but not returned. -/
theorem not_returns_flatten :
    Chain twoPages "https://api.security.microsoft.com/api/alerts"
      ["https://api.security.microsoft.com/api/alerts",
        "https://api.security.microsoft.com/api/alerts?$skip=1"]
      [[.obj [("id", .str "da1")]], [.obj [("id", .str "da2")]]] ∧
    ¬Returns (.ofServer none twoPages) (.str "token") 900
      "https://api.security.microsoft.com/api/alerts" none
      [.obj [("id", .str "da1")], .obj [("id", .str "da2")]] := by
  have page : IsPage twoPages "https://api.security.microsoft.com/api/alerts" _ _ := ⟨rfl, rfl⟩
  refine ⟨.cons page rfl rfl chain_twoPages_tail, fun h ↦ ?_⟩
  have hfirst : (.ok [.obj [("id", .str "da1")]] : Except OdataError (List Json)) =
      .ok [.obj [("id", .str "da1")], .obj [("id", .str "da2")]] := h []
  simp at hfirst

end Odata

end MsSecurity
