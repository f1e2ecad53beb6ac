import MsSecurity.Api.Account

/-!
# Access tokens

The credentials of an input are those of its account, a stanza of the account configuration. With
them `get_access_token` asks the token endpoint for a token; for an account with delegated
permissions it takes the token of the user who logged in, unless no login is cached.

Everything outside the add-on answers through `LoginServices`.
-/

namespace MsSecurity

/-! ## Accounts -/

/-- The account stanzas. A setting without a value is left out. -/
abbrev AccountConf := Dict (Dict String)

/-- `account_conf_file.get(name)`. -/
def AccountConf.stanza (conf : AccountConf) (name : String) : Except PyError (Dict String) :=
  match Dict.get conf name with
  | some stanza => .ok stanza
  | none => .error (.other "ConfStanzaNotExistException")

theorem AccountConf.stanza_eq_ok_iff {conf : AccountConf} {name : String} {stanza : Dict String} :
    conf.stanza name = .ok stanza ↔ Dict.get conf name = some stanza := by
  rw [AccountConf.stanza]
  cases Dict.get conf name <;> simp

/-- `try: x except Exception as e: raise h(e)`. -/
def raiseInstead {α : Type} (h : PyError → PyError) (x : Except PyError α) : Except PyError α :=
  x.mapError fun e ↦ if e.isException then h e else e

theorem raiseInstead_eq_ok_iff {α : Type} {h : PyError → PyError} {x : Except PyError α} {a : α} :
    raiseInstead h x = .ok a ↔ x = .ok a := by
  cases x <;> simp [raiseInstead, Except.mapError]

/-- `get_account_details`. -/
def getAccountDetails (accountConf : Except PyError AccountConf) (accountName : String) :
    Except PyError Account :=
  raiseInstead (fun _ ↦ .systemExit 1) do
    let conf ← accountConf
    let stanza ← conf.stanza accountName
    return {
      username := stanza.get "username"
      password := stanza.get "password"
      tenantId := stanza.get "tenant_id"
      useDelegatedPermissions := stanza.get "use_delegated_permissions" = some "1"
      delegatedAccName := stanza.get "delegated_acc_name" }

theorem getAccountDetails_eq_ok_iff {accountConf : Except PyError AccountConf}
    {accountName : String} {account : Account} :
    getAccountDetails accountConf accountName = .ok account ↔
      ∃ conf stanza, accountConf = .ok conf ∧ Dict.get conf accountName = some stanza ∧
        account = ⟨stanza.get "username", stanza.get "password", stanza.get "tenant_id",
          stanza.get "use_delegated_permissions" = some "1", stanza.get "delegated_acc_name"⟩ := by
  simp only [getAccountDetails, raiseInstead_eq_ok_iff, bind_eq_ok_iff,
    AccountConf.stanza_eq_ok_iff, pure, Except.pure, Except.ok.injEq]
  constructor
  · rintro ⟨conf, hconf, stanza, hstanza, rfl⟩
    exact ⟨conf, stanza, hconf, hstanza, rfl⟩
  · rintro ⟨conf, stanza, hconf, hstanza, rfl⟩
    exact ⟨conf, hconf, stanza, hstanza, rfl⟩

/-! ## What is asked of others -/

/-- The proxy of each scheme, as `requests` takes them. -/
abbrev Proxies := Dict String

/-- A request to the token endpoint. -/
structure LoginRequest where
  url : String
  data : Dict (Option String)
  proxies : Option Proxies
  /-- The `User-Agent` header, when the add-on sets it. -/
  userAgent : Option String

/-- A client of the MSAL library. -/
structure MsalApp where
  clientId : Option String
  clientSecret : Option String
  authority : String
  /-- The secret its token cache is read from. -/
  tokenCache : Option String

/-- What decoding a segment of a token ends in. -/
inductive Decoded
  | claims (v : Json)
  | jsonDecodeError
  | otherException

/-- The answers a login gets. -/
structure LoginServices where
  accountConf : Except PyError AccountConf
  /-- `get_proxy`. -/
  proxy : Except PyError (Option Proxies)
  currentVersion : Option String
  /-- `requests.get` of a URL through a proxy. -/
  connect : String → Proxies → Option PyError
  /-- `requests.post`, and the parsed content. -/
  post : LoginRequest → Except PyError Json
  /-- `logger.level`. -/
  logLevel : ℕ
  /-- `str(v)`. -/
  str : Json → String
  /-- `json.loads(b64decode(segment))`. -/
  decode : String → Decoded
  /-- `get_secrets`. -/
  secret : String → Except PyError (Option String)
  /-- `msal_app.get_accounts()`, the token cache loaded. -/
  msalAccounts : MsalApp → Except PyError (List Json)
  /-- `msal_app.acquire_token_silent([scope], account)`. -/
  acquireTokenSilent : MsalApp → String → Json → Except PyError (Option Json.Object)

/-! ## Delegated tokens -/

/-- `s.find(sub)`. -/
def find (s sub : String) : ℤ :=
  match s.toList.tails.findIdx? fun rest ↦ sub.toList.isPrefixOf rest with
  | some n => n
  | none => -1

/-- `s[:n]`. -/
def sliceTo (s : String) (n : ℤ) : String :=
  String.ofList (s.toList.take (if 0 ≤ n then n.toNat else s.length - (-n).toNat))

/-- The authority that a token URL belongs to. -/
def authorityOf (authorization : String) : String :=
  sliceTo authorization (find authorization "oauth2" - 1)

/-- The scope asked for with a cached login. -/
def delegatedScope (request : TokenRequest) : String :=
  let res := request.urls.resource
  let res := match nonemptyStr? request.environment with
    | some environment => if find environment "graph" = -1 then res ++ "/Incident.Read" else res
    | none => res
  if request.addDefault ∧ ¬"/.default".toList.isSuffixOf res.toList then res ++ "/.default" else res

/-- The branch of `get_access_token` for delegated permissions; `none` when no login is cached. -/
def delegatedToken (services : LoginServices) (request : TokenRequest) :
    Except PyError (Option Json) := do
  let tokenCache ← match request.delegatedAccName with
    | some name => services.secret (name ++ "-token_cache")
    | none => .error .typeError
  let msalApp : MsalApp := {
    clientId := request.clientId
    clientSecret := request.clientSecret
    authority := authorityOf request.urls.authorization
    tokenCache := tokenCache }
  match ← services.msalAccounts msalApp with
  | [] => return none
  | account :: _ =>
    match ← services.acquireTokenSilent msalApp (delegatedScope request) account with
    | some tokenResult => if tokenResult.isEmpty then throw (.valueError "") else
        return some (← tokenResult.getItem "access_token")
    | none => throw (.valueError "")

/-! ## Tokens for client credentials -/

/-- The second of the segments between dots, its padding put back. -/
def claimsSegment (accessToken : String) : Option String :=
  match accessToken.splitOn "." with
  | _ :: claims :: _ =>
    some (claims ++ String.ofList (List.replicate ((4 - claims.length % 4) % 4) '='))
  | _ => none

/-- The claims of a token, decoded. -/
def decodedClaims (services : LoginServices) : Json → Decoded
  | .str accessToken =>
    match claimsSegment accessToken with
    | some segment => services.decode segment
    | none => .otherException
  | _ => .otherException

/-- `decode_access_token`. -/
def decodeAccessToken (services : LoginServices) (accessToken : Json) : Except PyError Json :=
  match decodedClaims services accessToken with
  | .jsonDecodeError => .ok (.str "\"Invalid JSON found, unable to decode the access token\"")
  | .otherException => .ok (.str "\"Unable to parse the access token\"")
  | .claims v => do
    let claims ← asObject v
    return (claims.get "roles").getD (.str "<roles not found in the decoded token>")

/-- `logging.INFO`. -/
def infoLevel : ℕ := 20

/-- The roles of the token are logged at the debug level only. -/
def logRoles (services : LoginServices) (response : Json.Object) : Except PyError Unit :=
  if services.logLevel < infoLevel then do
    let _roles ← decodeAccessToken services (← response.getItem "access_token")
    return ()
  else return ()

/-- What is made of the content of a response to a token request. -/
def tokenOfResponse (services : LoginServices) (response : Json) : Except PyError Json := do
  let response ← asObject response
  if (response.getD "error_description").truthy then throw (.systemExit 1)
  else
    logRoles services response
    response.getItem "access_token"

/-- `get_access_token`. -/
def getAccessToken (services : LoginServices) (request : TokenRequest) : Except PyError Json := do
  let delegated ← if request.useDelegatedPermissions then delegatedToken services request
    else pure none
  match delegated with
  | some accessToken => return accessToken
  | none =>
    let payload := getLoginPayload request.urls.api request.clientId request.urls.resource
      request.clientSecret
    let proxies ← services.proxy
    let response ← services.post ⟨request.urls.authorization, payload, proxies, none⟩
    tokenOfResponse services response

end MsSecurity
