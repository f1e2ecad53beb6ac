import MsSecurity.Account.Authority
import MsSecurity.Python.Effect
import MsSecurity.Python.UrlPath
import MsSecurity.Transition.Run

/-!
# Logging in for delegated access

`handle_GET` exchanges the code of a login for tokens, sets the `verification_status` of the
account, and then stores the token cache, under a name that can only be created once. Each of the
two is a request of its own, and whatever is raised ends in a response. So the cache of the login
that verified an account is stored unless the second request is not reached or does not take effect,
or an earlier login has left a cache there, or the name addresses another account
(`secured_iff_meets`).
-/

namespace MsSecurity

/-! ## The handler -/

/-- What the requests of the handler change. -/
structure DelegatedStore where
  /-- The passwords of the realm `mssecuritydelegatedaccess`. -/
  passwords : Dict String
  /-- The stanzas of `delegated_settings` whose `verification_status` was set, the latest first,
  each with the token cache of the login that set it. -/
  verified : List (List UInt8 × String)

/-- What the MSAL client is given. -/
structure CodeExchange where
  clientId : String
  authority : String
  clientCredential : Json
  authCode : String
  scope : String
  redirectUri : String

/-- How the requests of the handler end. -/
structure LoginAnswers where
  /-- The status of the response for a URL, `str` of the response, and the parsed content. -/
  secret : String → Except PyError (ℕ × String × Except PyError Json)
  /-- `acquire_token_by_authorization_code`, and `json.dumps(msal_app.token_cache.serialize())`
  after it. -/
  exchange : CodeExchange → Except PyError (Json.Object × String)
  update : RemoteChange
  save : RemoteChange
  /-- `json.dumps` of the response to the saving request. -/
  savedStatus : String
  /-- `str` of an exception. -/
  text : PyError → String

/-- A request for the handler. -/
structure LoginQuery where
  query : Dict String
  answers : LoginAnswers

abbrev LoginHandler := EStateM PyError DelegatedStore

/-- What the first part of the handler comes to. -/
inductive Exchanged
  | refused (status : String)
  | result (name : String) (tokenResult : Json.Object) (tokenCache : String)

/-- `json.loads(resp)['entry'][0]['content']['clear_password']`. -/
def clearPassword (resp : Json) : Except PyError Json := do
  let entry ← resp.item "entry"
  let first ← entry.item0
  let content ← first.item "content"
  content.item "clear_password"

/-- The handler up to the exchange, which changes nothing. -/
def exchangeCode (request : LoginQuery) : Except PyError Exchanged := do
  let name ← request.query.getItem "name"
  let clientId ← request.query.getItem "client_id"
  let tenantId ← request.query.getItem "tenant_id"
  let environment ← request.query.getItem "environment"
  let location ← request.query.getItem "location"
  let authCode ← request.query.getItem "auth_code"
  let env ← incidentEnvs.getItem environment
  let (status, text, resp) ← request.answers.secret
    ("/servicesNS/nobody/Splunk_TA_MS_Security/storage/passwords/" ++
      "credential:mssecuritydelegatedaccess:" ++ name ++ ":")
  if status = 200 then
    let clientCredential ← clearPassword (← resp)
    let (tokenResult, tokenCache) ← request.answers.exchange {
      clientId := clientId
      authority := env.authorityFor tenantId
      clientCredential := clientCredential
      authCode := authCode
      scope := env.scope
      redirectUri := location ++ "/en-US/app/splunk-tams-security-delegated-access/handleRedirect" }
    return .result name tokenResult tokenCache
  else return .refused text

/-- The name of the password that holds the token cache of an account. -/
def tokenCacheName (name : String) : String := name ++ "-token_cache"

namespace DelegatedStore

/-- The POST to `properties/delegated_settings/{name}`. -/
def verify (name tokenCache : String) (store : DelegatedStore) : DelegatedStore :=
  match segmentOf name.toList with
  | some stanza => { store with verified := (stanza, tokenCache) :: store.verified }
  | none => store

/-- The POST to `storage/passwords`. -/
def create (name password : String) (store : DelegatedStore) : DelegatedStore :=
  { store with passwords := (name, password) :: store.passwords }

end DelegatedStore

/-- `updateConf`. -/
def updateConf (answers : LoginAnswers) (name tokenCache : String) : LoginHandler Unit :=
  remotely answers.update (DelegatedStore.verify name tokenCache)

/-- `save_token_cache`; the server does not create a password that is there. -/
def saveTokenCache (answers : LoginAnswers) (tokenCache name : String) : LoginHandler String := do
  let store ← get
  if (Dict.get store.passwords (tokenCacheName name)).isSome then throw (.httpError 409)
  else
    remotely answers.save (DelegatedStore.create (tokenCacheName name) tokenCache)
    return answers.savedStatus

/-- `handle_GET`, and what it writes. -/
def handleGet (request : LoginQuery) : LoginHandler Json :=
  exceptWith
    (do
      match ← liftExcept (exchangeCode request) with
      | .refused status => return .obj [("error", .str status)]
      | .result name tokenResult tokenCache =>
        if (tokenResult.get "access_token").isSome then
          updateConf request.answers name tokenCache
          let st ← saveTokenCache request.answers tokenCache name
          return .obj [("result", .str "Token received!"), ("st", .str st)]
        else return .obj tokenResult)
    fun e ↦ return .obj [("error", .str (request.answers.text e))]

/-- The store after a request, whatever its outcome. -/
def handled (store : DelegatedStore) (request : LoginQuery) : DelegatedStore :=
  match handleGet request store with
  | .ok _ after => after
  | .error _ after => after

/-! ## What a request changes -/

/-- The login that a request carries through: the name and the token cache. -/
def LoginQuery.login (request : LoginQuery) : Option (String × String) :=
  match exchangeCode request with
  | .ok (.result name tokenResult tokenCache) =>
    if (tokenResult.get "access_token").isSome then some (name, tokenCache) else none
  | _ => none

theorem DelegatedStore.passwords_verify (name tokenCache : String) (store : DelegatedStore) :
    (store.verify name tokenCache).passwords = store.passwords := by
  rw [verify]
  cases segmentOf name.toList <;> rfl

theorem handled_eq_of_ends {store store' : DelegatedStore} {request : LoginQuery}
    (h : Ends (handleGet request) store fun _ after ↦ after = store') :
    handled store request = store' := by
  unfold Ends at h
  rw [handled]
  cases hget : handleGet request store with
  | ok response after =>
    rw [hget] at h
    exact h
  | error e after =>
    rw [hget] at h
    exact h

theorem ends_response {request : LoginQuery} {x : LoginHandler Json} {store : DelegatedStore}
    {P : DelegatedStore → Prop} :
    Ends (exceptWith x fun e ↦ return .obj [("error", .str (request.answers.text e))]) store
      (fun _ after ↦ P after) ↔ Ends x store fun _ after ↦ P after := by
  rw [ends_exceptWith]
  refine iff_of_eq (congrArg (Ends x store) (funext fun r ↦ funext fun after ↦ ?_))
  cases r with
  | ok response => rfl
  | error e => cases he : e.isException <;> simp [he]

theorem handled_of_login_eq_none {store : DelegatedStore} {request : LoginQuery}
    (h : request.login = none) : handled store request = store := by
  refine handled_eq_of_ends (ends_response.mpr ?_)
  rw [ends_bind, ends_liftExcept]
  rw [LoginQuery.login] at h
  cases hexchange : exchangeCode request with
  | error e => rfl
  | ok exchanged =>
    rw [hexchange] at h
    cases exchanged with
    | refused status => rfl
    | result name tokenResult tokenCache =>
      dsimp only at h ⊢
      split_ifs at h with htoken
      rw [if_neg htoken]
      rfl

theorem ends_saveTokenCache {answers : LoginAnswers} {tokenCache name : String}
    {store : DelegatedStore} {P : DelegatedStore → Prop} :
    Ends (saveTokenCache answers tokenCache name) store (fun _ after ↦ P after) ↔
      P (if Dict.get store.passwords (tokenCacheName name) = none then
        answers.save.apply (DelegatedStore.create (tokenCacheName name) tokenCache) store
      else store) := by
  rw [saveTokenCache, ends_get_bind]
  cases hpassword : Dict.get store.passwords (tokenCacheName name) with
  | some password => exact Iff.rfl
  | none =>
    change Ends (remotely _ _ >>= _) store _ ↔ _
    rw [ends_bind, ends_remotely, if_pos rfl, RemoteChange.apply]
    cases hfault : answers.save.fault <;> exact Iff.rfl

/-- A request that gets a token sets the status, and then, if that raised nothing and no cache is
there, stores the token cache. -/
theorem handled_of_login {store : DelegatedStore} {request : LoginQuery} {name tokenCache : String}
    (h : request.login = some (name, tokenCache)) : handled store request =
      let marked := request.answers.update.apply (DelegatedStore.verify name tokenCache) store
      if request.answers.update.fault = none ∧
          Dict.get store.passwords (tokenCacheName name) = none then
        request.answers.save.apply (DelegatedStore.create (tokenCacheName name) tokenCache) marked
      else marked := by
  refine handled_eq_of_ends (ends_response.mpr ?_)
  rw [ends_bind, ends_liftExcept]
  rw [LoginQuery.login] at h
  cases hexchange : exchangeCode request with
  | error e =>
    rw [hexchange] at h
    cases h
  | ok exchanged =>
    rw [hexchange] at h
    cases exchanged with
    | refused status => cases h
    | result name' tokenResult tokenCache' =>
      dsimp only at h ⊢
      split_ifs at h with htoken
      obtain ⟨rfl, rfl⟩ := Prod.mk.inj (Option.some.inj h)
      rw [if_pos htoken, updateConf, ends_bind, ends_remotely]
      cases hfault : request.answers.update.fault with
      | some e =>
        rw [if_neg (fun hnone ↦ nomatch hnone.1), RemoteChange.apply, hfault]
        rfl
      | none =>
        have happly : request.answers.update.apply (DelegatedStore.verify name' tokenCache') store =
            store.verify name' tokenCache' := RemoteChange.apply_of_lands (Or.inl hfault) _ _
        simp only [happly, true_and]
        rw [ends_bind]
        have hsave : Ends (saveTokenCache request.answers tokenCache' name')
            (store.verify name' tokenCache') fun _ after ↦
              after = if Dict.get store.passwords (tokenCacheName name') = none then
                request.answers.save.apply
                  (DelegatedStore.create (tokenCacheName name') tokenCache')
                  (store.verify name' tokenCache')
              else store.verify name' tokenCache' := by
          rw [ends_saveTokenCache, DelegatedStore.passwords_verify]
        refine hsave.mono fun r after hafter ↦ ?_
        cases r <;> exact hafter

/-! ## Verified accounts -/

namespace DelegatedStore

/-- Every account whose status was set has the token cache of the latest login that set it. -/
def Secured (store : DelegatedStore) : Prop := ∀ account tokenCache : String,
  store.verified.lookup (utf8Bytes account.toList) = some tokenCache →
    Dict.get store.passwords (tokenCacheName account) = some tokenCache

/-- If the request sets the status of an account, then the token cache it obtains is stored for the
account already, or it is stored by the request: the account is the one that is named, has no token
cache yet, and neither does the status request raise nor the saving request miss. -/
def Meets (store : DelegatedStore) (request : LoginQuery) : Prop :=
  ∀ name tokenCache, request.login = some (name, tokenCache) → request.answers.update.Lands →
    ∀ account : String, segmentOf name.toList = some (utf8Bytes account.toList) →
      Dict.get store.passwords (tokenCacheName account) = some tokenCache ∨
        (account = name ∧ Dict.get store.passwords (tokenCacheName account) = none ∧
          request.answers.update.fault = none ∧ request.answers.save.Lands)

theorem tokenCacheName_injective : Function.Injective tokenCacheName := fun name name' h ↦ by
  have htoList := congrArg String.toList h
  rw [tokenCacheName, tokenCacheName, String.toList_append, String.toList_append] at htoList
  exact String.toList_inj.mp (List.append_cancel_right htoList)

theorem get_create (store : DelegatedStore) (name tokenCache account : String) :
    Dict.get (store.create (tokenCacheName name) tokenCache).passwords (tokenCacheName account) =
      if account = name then some tokenCache
      else Dict.get store.passwords (tokenCacheName account) := by
  change List.lookup _ (_ :: _) = _
  rw [List.lookup_cons]
  rcases eq_or_ne account name with rfl | hne
  · rw [BEq.rfl, if_pos rfl]
  · rw [beq_false_of_ne fun h ↦ hne (tokenCacheName_injective h), if_neg hne]
    rfl

theorem get_handled {store : DelegatedStore} {request : LoginQuery} {name tokenCache : String}
    (h : request.login = some (name, tokenCache)) (hlands : request.answers.update.Lands)
    (account : String) :
    Dict.get (handled store request).passwords (tokenCacheName account) =
      if account = name ∧ Dict.get store.passwords (tokenCacheName account) = none ∧
          request.answers.update.fault = none ∧ request.answers.save.Lands then some tokenCache
      else Dict.get store.passwords (tokenCacheName account) := by
  rw [handled_of_login h, RemoteChange.apply_of_lands hlands]
  dsimp only
  split_ifs with hreached hsaved hsaved
  · rw [RemoteChange.apply_of_lands hsaved.2.2.2, get_create, if_pos hsaved.1]
  · by_cases hsave : request.answers.save.Lands
    · rw [RemoteChange.apply_of_lands hsave, get_create, passwords_verify]
      refine if_neg ?_
      rintro rfl
      exact hsaved ⟨rfl, hreached.2, hreached.1, hsave⟩
    · rw [RemoteChange.apply_of_not_lands hsave, passwords_verify]
  · obtain ⟨rfl, hnone, hfault, -⟩ := hsaved
    exact absurd ⟨hfault, hnone⟩ hreached
  · rw [passwords_verify]

theorem lookup_verify (store : DelegatedStore) (name tokenCache account : String) :
    (store.verify name tokenCache).verified.lookup (utf8Bytes account.toList) =
      if segmentOf name.toList = some (utf8Bytes account.toList) then some tokenCache
      else store.verified.lookup (utf8Bytes account.toList) := by
  rw [verify]
  cases segmentOf name.toList with
  | none => exact (if_neg fun hnone ↦ nomatch hnone).symm
  | some stanza =>
    dsimp only
    rw [List.lookup_cons]
    rcases eq_or_ne stanza (utf8Bytes account.toList) with rfl | hne
    · rw [BEq.rfl, if_pos rfl]
    · rw [beq_false_of_ne hne.symm, if_neg fun heq ↦ hne (Option.some.inj heq)]

theorem verified_handled {store : DelegatedStore} {request : LoginQuery} {name tokenCache : String}
    (h : request.login = some (name, tokenCache)) (hlands : request.answers.update.Lands) :
    (handled store request).verified = (store.verify name tokenCache).verified := by
  rw [handled_of_login h, RemoteChange.apply_of_lands hlands]
  dsimp only
  split_ifs
  · rw [RemoteChange.apply]
    split_ifs <;> rfl
  · rfl

/-- If the status request does not take effect, it raises, and nothing is stored. -/
theorem handled_of_not_lands {store : DelegatedStore} {request : LoginQuery}
    {name tokenCache : String} (h : request.login = some (name, tokenCache))
    (hlands : ¬request.answers.update.Lands) : handled store request = store := by
  rw [handled_of_login h, if_neg fun hreached ↦ hlands (Or.inl hreached.1),
    RemoteChange.apply_of_not_lands hlands]

theorem get_handled_of_eq_some {store : DelegatedStore} {request : LoginQuery}
    {name tokenCache : String} (h : request.login = some (name, tokenCache))
    (hlands : request.answers.update.Lands) {account password : String}
    (hpassword : Dict.get store.passwords (tokenCacheName account) = some password) :
    Dict.get (handled store request).passwords (tokenCacheName account) = some password := by
  rw [get_handled h hlands, if_neg, hpassword]
  rintro ⟨-, hnone, -⟩
  rw [hpassword] at hnone
  cases hnone

/-- A request keeps every verified account secured exactly if it meets the condition. -/
theorem Secured.handled_iff {store : DelegatedStore} (h : store.Secured) (request : LoginQuery) :
    (handled store request).Secured ↔ store.Meets request := by
  cases hlogin : request.login with
  | none =>
    rw [handled_of_login_eq_none hlogin]
    refine iff_of_true h fun name tokenCache hsome ↦ ?_
    rw [hlogin] at hsome
    cases hsome
  | some login =>
    obtain ⟨name, tokenCache⟩ := login
    by_cases hlands : request.answers.update.Lands
    · have hlookup (account : String) :
          (handled store request).verified.lookup (utf8Bytes account.toList) =
            if segmentOf name.toList = some (utf8Bytes account.toList) then some tokenCache
            else store.verified.lookup (utf8Bytes account.toList) := by
        rw [verified_handled hlogin hlands, lookup_verify]
      constructor
      · intro hafter name' tokenCache' hlogin' _ account hsegment
        obtain ⟨rfl, rfl⟩ := Prod.mk.inj (Option.some.inj (hlogin.symm.trans hlogin'))
        have hget := hafter account tokenCache (by rw [hlookup, if_pos hsegment])
        rw [get_handled hlogin hlands] at hget
        split_ifs at hget with hsaved
        · exact Or.inr hsaved
        · exact Or.inl hget
      · intro hmeets account password hverified
        rw [hlookup] at hverified
        split_ifs at hverified with hsegment
        · obtain rfl := Option.some.inj hverified
          rcases hmeets name tokenCache hlogin hlands account hsegment with hstored | hsaved
          · exact get_handled_of_eq_some hlogin hlands hstored
          · rw [get_handled hlogin hlands, if_pos hsaved]
        · exact get_handled_of_eq_some hlogin hlands (h account password hverified)
    · rw [handled_of_not_lands hlogin hlands]
      exact iff_of_true h fun _ _ _ hlands' ↦ absurd hlands' hlands

/-- The store before the first request. -/
def start (passwords : Dict String) : DelegatedStore := ⟨passwords, []⟩

theorem secured_start (passwords : Dict String) : (start passwords).Secured :=
  fun _ _ h ↦ nomatch h

/-- **Verified with a token.** After each request of a sequence every account that was verified has
the token cache of the latest login that verified it if and only if each request meets the condition
where it is handled. -/
theorem secured_iff_meets (passwords : Dict String) (requests : List LoginQuery) :
    (∀ before, before <+: requests → (before.foldl handled (start passwords)).Secured) ↔
      ∀ before request, before ++ [request] <+: requests →
        (before.foldl handled (start passwords)).Meets request :=
  Run.invariant_foldl_iff (fun _ request hsecured ↦ hsecured.handled_iff request)
    (secured_start passwords)

/-! ## A lost token cache -/

/-- A login that gets a token and sets the status, and whose saving request fails. -/
def lostSave : LoginQuery where
  query := [("name", "contoso"), ("client_id", "id"), ("tenant_id", "tenant"),
    ("environment", "commercial"), ("location", "https://splunk.example.com"),
    ("auth_code", "code")]
  answers := {
    secret := fun _ ↦ .ok (200, "", .ok (.obj [("entry",
      .arr [.obj [("content", .obj [("clear_password", .str "secret")])]])]))
    exchange := fun _ ↦ .ok ([("access_token", .str "token")], "cache")
    update := ⟨none, true⟩
    save := ⟨some (.httpError 500), false⟩
    savedStatus := ""
    text := fun _ ↦ "" }

theorem not_secured : ¬∀ (passwords : Dict String) (requests : List LoginQuery),
    (requests.foldl handled (start passwords)).Secured := by
  intro hall
  have hstored := hall [] [lostSave] "contoso" "cache" rfl
  have hlost : Dict.get ([lostSave].foldl handled (start [])).passwords
      (tokenCacheName "contoso") = none := rfl
  rw [hlost] at hstored
  cases hstored

end DelegatedStore

end MsSecurity
