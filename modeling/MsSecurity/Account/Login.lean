import MsSecurity.Account.Validation

/-!
# Validation and login read the same answer

`validate` and `get_access_token` send the same request and look at different keys of the answer:
one at the first of the `error_codes`, the other at `error_description` and `access_token`. So an
answer may be taken for valid that gives no token, and the other way round; exactly when they agree
is `AccountValidator.valid_iff_token_iff`.
-/

namespace MsSecurity

variable {services : LoginServices} {resp : Json.Object}

/-! ## What each of them accepts -/

/-- There are no error codes, or the first of them is false. -/
def NoErrorCode (resp : Json.Object) : Prop :=
  (resp.getD "error_codes").truthy = false ∨
    ∃ code codes, resp.getD "error_codes" = .arr (code :: codes) ∧ code.truthy = false

/-- There is a token and no error description; and a token whose claims are to be logged does not
decode to anything but an object. -/
def GivesToken (services : LoginServices) (resp : Json.Object) : Prop :=
  (resp.getD "error_description").truthy = false ∧ (resp.getD "access_token").truthy = true ∧
    (services.logLevel < infoLevel → ∀ v,
      decodedClaims services (resp.getD "access_token") = .claims v → ∃ claims, v = .obj claims)

theorem Json.truthy_of_eqInt {v : Json} {n : ℤ} (hn : n ≠ 0) (h : v.eqInt n = true) :
    v.truthy = true := by
  cases v with
  | int m =>
    obtain rfl : m = n := of_decide_eq_true h
    exact decide_eq_true hn
  | float x =>
    cases x with
    | finite q =>
      obtain rfl : q = n := of_decide_eq_true h
      exact decide_eq_true (by exact_mod_cast hn)
    | infinite negative => rfl
    | nan => rfl
  | bool b =>
    cases b with
    | true => rfl
    | false => exact absurd (of_decide_eq_true h).symm hn
  | _ => cases h

/-- The first item of a value can be false in a list only: a character is not. -/
theorem Json.item0_eq_ok_iff {v code : Json} (hcode : code.truthy = false) :
    v.item0 = .ok code ↔ ∃ codes, v = .arr (code :: codes) := by
  constructor
  · intro h
    match v, h with
    | .arr (code' :: codes), h =>
      obtain rfl := Except.ok.inj h
      exact ⟨codes, rfl⟩
    -- a character of a string is a string that is not empty
    | .str s, h =>
      rw [item0] at h
      split at h
      · obtain rfl := Except.ok.inj h
        rw [truthy_str] at hcode
        simp at hcode
      · cases h
  · rintro ⟨codes, rfl⟩
    rfl

theorem AccountValidator.raiseOnErrorCode_eq_ok_iff {v : AccountValidator} :
    v.raiseOnErrorCode services resp = .ok () ↔
      ∃ code codes, resp.getD "error_codes" = .arr (code :: codes) ∧ code.truthy = false := by
  rw [raiseOnErrorCode, bind_eq_ok_iff]
  constructor
  · rintro ⟨code, hitem, h⟩
    have hcode : code.truthy = false := by
      by_contra htrue
      rw [Bool.not_eq_false] at htrue
      -- every branch that a true code can take raises
      rw [if_pos htrue] at h
      split_ifs at h
    obtain ⟨codes, hcodes⟩ := (Json.item0_eq_ok_iff hcode).mp hitem
    exact ⟨code, codes, hcodes, hcode⟩
  · rintro ⟨code, codes, hcodes, hcode⟩
    have hne {n : ℤ} (hn : n ≠ 0) : ¬code.eqInt n = true := fun h ↦ by
      rw [Json.truthy_of_eqInt hn h] at hcode
      cases hcode
    refine ⟨code, (Json.item0_eq_ok_iff hcode).mpr ⟨codes, hcodes⟩, ?_⟩
    rw [if_neg (not_or.mpr ⟨hne (by decide), hne (by decide)⟩), if_neg (hne (by decide)),
      if_neg (hne (by decide)), if_neg (hne (by decide)), if_neg (hne (by decide)),
      if_neg (by simp [hcode])]
    rfl

theorem decodeAccessToken_eq_ok_iff {accessToken : Json} :
    (∃ roles, decodeAccessToken services accessToken = .ok roles) ↔
      ∀ v, decodedClaims services accessToken = .claims v → ∃ claims, v = .obj claims := by
  rw [decodeAccessToken]
  cases decodedClaims services accessToken with
  | claims v => cases v <;> simp [asObject, bind, Except.bind, pure, Except.pure]
  | jsonDecodeError => simp
  | otherException => simp

theorem logRoles_eq_ok_iff {accessToken : Json} (h : resp.get "access_token" = some accessToken) :
    logRoles services resp = .ok () ↔ (services.logLevel < infoLevel →
      ∀ v, decodedClaims services accessToken = .claims v → ∃ claims, v = .obj claims) := by
  rw [← decodeAccessToken_eq_ok_iff, logRoles]
  split_ifs with hlevel
  · simp [bind_eq_ok_iff, Dict.getItem_eq_ok_iff, h, hlevel, pure, Except.pure]
  · simp [hlevel, pure, Except.pure]

theorem tokenOfResponse_eq_ok_iff :
    (∃ accessToken, tokenOfResponse services (.obj resp) = .ok accessToken ∧
      accessToken.truthy = true) ↔ GivesToken services resp := by
  have hread : tokenOfResponse services (.obj resp) =
      if (resp.getD "error_description").truthy then throw (.systemExit 1)
      else logRoles services resp >>= fun _ ↦ Dict.getItem resp "access_token" := rfl
  rw [hread, GivesToken]
  cases hdescription : (resp.getD "error_description").truthy with
  | true =>
    rw [if_pos rfl]
    refine iff_of_false ?_ fun h ↦ nomatch h.1
    rintro ⟨accessToken, h, -⟩
    cases h
  | false =>
    rw [if_neg Bool.false_ne_true]
    simp only [bind_eq_ok_iff, Dict.getItem_eq_ok_iff]
    constructor
    · rintro ⟨accessToken, ⟨⟨⟩, hroles, hget⟩, htruthy⟩
      rw [Json.Object.getD, hget]
      exact ⟨trivial, htruthy, (logRoles_eq_ok_iff hget).mp hroles⟩
    · rintro ⟨-, htruthy, hroles⟩
      cases hget : Dict.get resp "access_token" with
      | none =>
        rw [Json.Object.getD, hget] at htruthy
        cases htruthy
      | some accessToken =>
        rw [Json.Object.getD, hget] at htruthy hroles
        exact ⟨accessToken, ⟨(), (logRoles_eq_ok_iff hget).mpr hroles, rfl⟩, htruthy⟩

/-! ## The two on one answer -/

/-- What the collectors ask for a token with, given the same credentials and URLs. -/
def UserCredentials.tokenRequest (credentials : UserCredentials) (urls : ApiUrls)
    (delegatedAccName environment : Option String) (addDefault : Bool) : TokenRequest where
  clientId := credentials.clientId
  clientSecret := credentials.clientSecret
  urls := urls
  useDelegatedPermissions := credentials.useDelegatedPermissions
  delegatedAccName := delegatedAccName
  environment := environment
  addDefault := addDefault

section Login

variable {v : AccountValidator} {credentials : UserCredentials} {urls : ApiUrls}
  {proxies : Option Proxies}

/-- The endpoint's answer to the credentials, whichever `User-Agent` comes with them. -/
def Answers (services : LoginServices) (credentials : UserCredentials) (urls : ApiUrls)
    (proxies : Option Proxies) (resp : Json.Object) : Prop :=
  ∀ userAgent, services.post ⟨urls.authorization, getLoginPayload urls.api credentials.clientId
    urls.resource credentials.clientSecret, proxies, userAgent⟩ = .ok (.obj resp)

/-- The proxy is known and can be connected to. -/
def ProxyWorks (services : LoginServices) (urls : ApiUrls) (proxies : Option Proxies) : Prop :=
  services.proxy = .ok proxies ∧
    ∀ used, proxies = some used → services.connect urls.authorization used = none

theorem AccountValidator.getProxies_eq (h : ProxyWorks services urls proxies) :
    getProxies services urls.authorization = .ok proxies := by
  obtain ⟨hproxy, hconnect⟩ := h
  rw [getProxies, proxiesOrNone, hproxy]
  cases proxies with
  | none => rfl
  | some used =>
    dsimp only [bind, Except.bind]
    rw [hconnect used rfl]
    split_ifs <;> rfl

theorem AccountValidator.validate_eq_ok_iff
    (hresolve : v.resolve services.accountConf = .ok (credentials, urls))
    (hdelegated : credentials.useDelegatedPermissions = false)
    (hproxy : ProxyWorks services urls proxies)
    (hpost : Answers services credentials urls proxies resp) :
    v.validate services = .ok () ↔ credentials.clientSecret.isSome ∧ NoErrorCode resp := by
  rw [validate, hresolve]
  simp only [bind, Except.bind, hdelegated, getProxies_eq hproxy, Bool.false_eq_true, if_false,
    raiseInstead_eq_ok_iff]
  rw [hpost]
  cases credentials.clientSecret with
  -- without a secret the request is not sent
  | none => exact iff_of_false (fun h ↦ nomatch h) fun h ↦ nomatch h.1
  | some clientSecret =>
    rw [NoErrorCode, ← @raiseOnErrorCode_eq_ok_iff services resp v]
    dsimp only [asObject]
    cases hcodes : (resp.getD "error_codes").truthy with
    | true => simp
    | false => simp [pure, Except.pure]

theorem getAccessToken_eq_ok_iff {delegatedAccName environment : Option String} {addDefault : Bool}
    (hdelegated : credentials.useDelegatedPermissions = false)
    (hproxy : ProxyWorks services urls proxies)
    (hpost : Answers services credentials urls proxies resp) :
    (∃ accessToken, getAccessToken services
        (credentials.tokenRequest urls delegatedAccName environment addDefault) = .ok accessToken ∧
      accessToken.truthy = true) ↔ GivesToken services resp := by
  have hread : getAccessToken services
      (credentials.tokenRequest urls delegatedAccName environment addDefault) =
      tokenOfResponse services (.obj resp) := by
    simp only [getAccessToken, UserCredentials.tokenRequest, hdelegated, Bool.false_eq_true,
      if_false, bind, Except.bind, pure, Except.pure, hproxy.1]
    rw [hpost]
  rw [hread, tokenOfResponse_eq_ok_iff]

/-- **Valid exactly if it gives a token, exactly for these answers.** For the credentials of an
account without delegated permissions and one answer of the token endpoint to them, `validate`
returns if and only if `get_access_token` returns a token, if and only if the answer has no error
code that counts exactly when it has a token and no error description. -/
theorem AccountValidator.valid_iff_token_iff {delegatedAccName environment : Option String}
    {addDefault : Bool}
    (hresolve : v.resolve services.accountConf = .ok (credentials, urls))
    (hdelegated : credentials.useDelegatedPermissions = false)
    (hproxy : ProxyWorks services urls proxies)
    (hpost : Answers services credentials urls proxies resp) :
    (v.validate services = .ok () ↔
      ∃ accessToken, getAccessToken services
          (credentials.tokenRequest urls delegatedAccName environment addDefault) =
            .ok accessToken ∧ accessToken.truthy = true) ↔
      (credentials.clientSecret.isSome ∧ NoErrorCode resp ↔ GivesToken services resp) := by
  rw [validate_eq_ok_iff hresolve hdelegated hproxy hpost,
    getAccessToken_eq_ok_iff hdelegated hproxy hpost]

end Login

/-! ## Two answers -/

/-- An endpoint that answers every request alike. -/
def answering (resp : Json.Object) : LoginServices where
  accountConf := .ok oneAccount
  proxy := .ok none
  currentVersion := some "2.0"
  connect _ _ := none
  post _ := .ok (.obj resp)
  logLevel := infoLevel
  str _ := ""
  decode _ := .otherException
  secret _ := .ok none
  msalAccounts _ := .ok []
  acquireTokenSilent _ _ _ := .ok none

def commercialValidator : AccountValidator where
  globalAccount := "acc"
  tenantId := none
  environment := some "commercial"
  location := none

def grant : Json.Object := [("token_type", .str "Bearer"), ("access_token", .str "token")]

/-- An error as the OAuth 2.0 protocol requires it, without the endpoint's own codes. -/
def invalidRequest : Json.Object :=
  [("error", .str "invalid_request"), ("error_description", .str "The request is malformed.")]

theorem AccountValidator.valid_iff_token_iff_grant : ∃ credentials urls,
    commercialValidator.resolve (.ok oneAccount) = .ok (credentials, urls) ∧
      (commercialValidator.validate (answering grant) = .ok () ↔ ∃ accessToken,
        getAccessToken (answering grant)
            (credentials.tokenRequest urls none (some "commercial") false) = .ok accessToken ∧
          accessToken.truthy = true) := by
  obtain ⟨credentials, urls, hresolve, hdelegated, hsecret⟩ : ∃ credentials urls,
      commercialValidator.resolve (.ok oneAccount) = .ok (credentials, urls) ∧
        credentials.useDelegatedPermissions = false ∧ credentials.clientSecret.isSome :=
    ⟨_, _, rfl, rfl, rfl⟩
  have hproxy : ProxyWorks (answering grant) urls none := ⟨rfl, fun _ h ↦ nomatch h⟩
  have hgives : GivesToken (answering grant) grant :=
    ⟨rfl, rfl, fun h ↦ absurd h (Nat.lt_irrefl _)⟩
  refine ⟨credentials, urls, hresolve, (AccountValidator.valid_iff_token_iff hresolve hdelegated
    hproxy fun _ ↦ rfl).mpr ⟨fun _ ↦ hgives, fun _ ↦ ⟨hsecret, Or.inl rfl⟩⟩⟩

/-- An error without error codes is reported as valid. -/
theorem AccountValidator.valid_without_token :
    ¬∀ (v : AccountValidator) (services : LoginServices) (credentials : UserCredentials)
      (urls : ApiUrls) (proxies : Option Proxies) (resp : Json.Object)
      (delegatedAccName environment : Option String) (addDefault : Bool),
      v.resolve services.accountConf = .ok (credentials, urls) →
      credentials.useDelegatedPermissions = false → ProxyWorks services urls proxies →
      Answers services credentials urls proxies resp →
      (v.validate services = .ok () ↔ ∃ accessToken, getAccessToken services
          (credentials.tokenRequest urls delegatedAccName environment addDefault) =
            .ok accessToken ∧ accessToken.truthy = true) := by
  intro h
  obtain ⟨credentials, urls, hresolve, hdelegated, hfails⟩ : ∃ credentials urls,
      commercialValidator.resolve (.ok oneAccount) = .ok (credentials, urls) ∧
        credentials.useDelegatedPermissions = false ∧
        getAccessToken (answering invalidRequest)
          (credentials.tokenRequest urls none (some "commercial") false) =
            .error (.systemExit 1) := ⟨_, _, rfl, rfl, rfl⟩
  have hvalid : commercialValidator.validate (answering invalidRequest) = .ok () := rfl
  obtain ⟨accessToken, htoken, -⟩ := (h commercialValidator (answering invalidRequest) credentials
    urls none invalidRequest none (some "commercial") false hresolve hdelegated
    ⟨rfl, fun _ h ↦ nomatch h⟩ fun _ ↦ rfl).mp hvalid
  rw [hfails] at htoken
  cases htoken

end MsSecurity
