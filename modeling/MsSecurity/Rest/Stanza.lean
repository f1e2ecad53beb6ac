import MsSecurity.Account.Login
import MsSecurity.Python.Effect
import MsSecurity.Python.Text
import MsSecurity.Transition.Run

/-!
# Saving an input

`handleCreate` and `handleEdit` of an input run `account_validation` on the payload of the request
and then send the payload on to be saved. A created stanza is the payload. An edited one keeps the
fields that the payload does not carry, so what is saved is not what was validated: a payload
without a tenant is validated with the tenant of its account, and saved with the tenant that the
stanza has.

## Main result

* `InputStanza.accepted_of_run`: what is stored has been validated, as long as no edit leaves out
  the tenant where that makes a difference.
-/

namespace MsSecurity

namespace InputStanza

/-! ## The fields of an input -/

/-- The fields of a payload or of a stored stanza. -/
abbrev Fields := Dict String

/-- A field of the REST model. None has a converter, and none is encrypted. -/
structure RestField where
  name : String
  required : Bool
  hasValidator : Bool

def interval : RestField := ⟨"interval", true, true⟩

def index : RestField := ⟨"index", true, true⟩

def azureAppAccount : RestField := ⟨"azure_app_account", true, false⟩

def tenantId : RestField := ⟨"tenant_id", false, true⟩

def environment : RestField := ⟨"environment", true, false⟩

def location : RestField := ⟨"location", true, false⟩

def query : RestField := ⟨"query", true, true⟩

def startDate : RestField := ⟨"start_date", false, true⟩

def disabled : RestField := ⟨"disabled", false, false⟩

/-- `fields` of the module of each type. -/
def fields : InputType → List RestField
  | .incidents => [interval, index, azureAppAccount, tenantId, environment, startDate, disabled]
  | .advancedHunting => [interval, index, azureAppAccount, tenantId, environment, query, disabled]
  | .alerts => [interval, index, azureAppAccount, tenantId, location, startDate, disabled]
  | .machines => [interval, index, azureAppAccount, tenantId, location, startDate, disabled]

/-- All fields are of the model. -/
def Supported (t : InputType) (data : Fields) : Prop :=
  ∀ p ∈ data, p.1 ∈ (fields t).map RestField.name

/-- The arguments of a request, which splunkd refuses if one of them is not of the model. -/
structure CallerArgs (t : InputType) where
  data : Dict (List String)
  supported : ∀ p ∈ data, p.1 ∈ (fields t).map RestField.name

/-- `_convert_payload`. -/
def CallerArgs.payload {t : InputType} (callerArgs : CallerArgs t) : Fields :=
  callerArgs.data.map fun (field, value) ↦ (field, value.headD "")

/-! ## Answers and state -/

/-- The answers that one operation gets. The accounts do not change from one to another. -/
structure Answers (accounts : AccountConf) where
  /-- Getting the session key and the log level, before the validation. -/
  prepare : Option PyError
  login : LoginServices
  /-- `str` of an exception. -/
  text : PyError → String
  /-- Whether the stanza can be read. -/
  readable : Bool
  /-- What the validator of a field makes of a value, and its message. -/
  validator : String → String → Except PyError Bool
  msg : String → String → String
  save : RemoteChange
  accountConf : ∀ conf, login.accountConf = .ok conf → conf = accounts

/-- The stored stanza of the input, and what `account_validation` has accepted so far. -/
structure InputState where
  stanza : Option Fields
  accepted : List Payload

abbrev Handler := EStateM PyError InputState

/-- What the validation reads of the fields. -/
def payloadOf (data : Fields) : Payload where
  azureAppAccount := Dict.get data "azure_app_account"
  tenantId := Dict.get data "tenant_id"
  environment := Dict.get data "environment"
  location := Dict.get data "location"

section Handlers

variable {accounts : AccountConf} (answers : Answers accounts)

/-- `except TaExecutionException as e: raise RestError(400, str(e))`. -/
def restErrorOf : PyError → PyError
  | .taExecution msg _ => .restError 400 msg
  | .taExecutionFrom e _ => .restError 400 (answers.text e)
  | e => e

/-- `account_validation`. -/
def accountValidation (payload : Fields) : Handler Unit := do
  attempt answers.prepare
  liftExcept <| Except.mapError (restErrorOf answers) do
    let v ← AccountValidator.init (payloadOf payload)
    v.validate answers.login
  modify fun s ↦ { s with accepted := s.accepted ++ [payloadOf payload] }

/-- `RestField.validate`. -/
def RestField.validate (field : RestField) (data : Fields) (existing : Option Fields) :
    Except PyError Unit :=
  let missing : PyError := .restError 400 ("Required field is missing: " ++ field.name)
  let value := Dict.get data field.name
  if existing.getD [] ≠ [] ∧ value.isSome ∧ ¬truthyStr value ∧ field.required then .error missing
  else
    match nonemptyStr? value with
    | none => if existing = none ∧ field.required then .error missing else .ok ()
    | some v =>
      if field.hasValidator then do
        if ← answers.validator field.name v then return ()
        else throw (.restError 400 (answers.msg field.name v))
      else .ok ()

/-- `RestEndpoint.validate`. -/
def validateEach (data : Fields) (existing : Option Fields) : List RestField → Except PyError Unit
  | [] => .ok ()
  | field :: rest => do
    RestField.validate answers field data existing
    validateEach data existing rest

/-- `list(self.get(name))`; a stanza that cannot be read passes for one that does not exist. -/
def readEntities : Handler (Option Fields) := do
  let s ← get
  return if answers.readable then s.stanza else none

/-- `_check_name_for_create`. -/
def checkNameForCreate (name : String) : Except PyError Unit :=
  if name = "default" then
    .error (.restError 400 ("\"" ++ name ++ "\" is not allowed for entity name"))
  else if "_".toList.isPrefixOf name.toList then
    .error (.restError 400 "Name starting with \"_\" is not allowed for entity")
  else .ok ()

/-- `RestHandler.create`. splunkd does not create a stanza a second time. -/
def createStanza (t : InputType) (name : String) (data : Fields) : Handler Unit := do
  liftExcept (checkNameForCreate name)
  match ← readEntities answers with
  | some _ => throw (.restError 409 ("Name \"" ++ name ++ "\" is already in use"))
  | none =>
    liftExcept (validateEach answers data none (fields t))
    match (← get).stanza with
    | some _ => throw (.httpError 409)
    | none => remotely answers.save fun s ↦ { s with stanza := some data }

/-- The stanza with some of its fields overwritten. -/
def merge (data stanza : Fields) : Fields :=
  data ++ stanza.filter fun p ↦ (Dict.get data p.1).isNone

/-- `RestHandler.update`. -/
def updateStanza (t : InputType) (name : String) (data : Fields) : Handler Unit := do
  match ← readEntities answers with
  | none => throw (.restError 404 ("\"" ++ name ++ "\" does not exist"))
  | some existing =>
    liftExcept (validateEach answers data (some existing) (fields t))
    remotely answers.save fun s ↦ { s with stanza := s.stanza.map (merge data) }

/-- `RestHandler.disable` and `RestHandler.enable`. -/
def setDisabled (value : String) : Handler Unit :=
  remotely answers.save fun s ↦ { s with stanza := s.stanza.map (merge [("disabled", value)]) }

/-- `handleCreate`. -/
def handleCreate (t : InputType) (name : String) (payload : Fields) : Handler Unit := do
  accountValidation answers payload
  createStanza answers t name payload

/-- What `handleEdit` does first. -/
def validateEdit (payload : Fields) : Handler Unit :=
  if truthyStr (Dict.get payload "disabled") then pure () else accountValidation answers payload

/-- `handleEdit`. -/
def handleEdit (t : InputType) (name : String) (payload : Fields) : Handler Unit := do
  validateEdit answers payload
  match Dict.get payload "disabled" with
  | none => updateStanza answers t name payload
  | some disabled => setDisabled answers (if isTrueStr disabled then "1" else "0")

end Handlers

/-! ## Runs -/

/-- A request to create or to edit the input. -/
inductive Op (t : InputType)
  | create (name : String) (callerArgs : CallerArgs t)
  | edit (name : String) (callerArgs : CallerArgs t)

/-- A request, and what happens while it is handled. -/
structure Action (t : InputType) (accounts : AccountConf) where
  op : Op t
  answers : Answers accounts

/-- The handler that is called. -/
def Action.handle {t : InputType} {accounts : AccountConf} (a : Action t accounts) : Handler Unit :=
  match a.op with
  | .create name callerArgs => handleCreate a.answers t name callerArgs.payload
  | .edit name callerArgs => handleEdit a.answers t name callerArgs.payload

/-- The state after a request, whether it succeeds or not. -/
def step {t : InputType} {accounts : AccountConf} (s : InputState) (a : Action t accounts) :
    Option InputState :=
  match a.handle s with
  | .ok _ s' => some s'
  | .error _ s' => some s'

/-! ## What is accepted and what is stored -/

/-- The tenant of an account. -/
def accountTenant (accounts : AccountConf) (account : Option String) : Option String :=
  (account.bind (Dict.get accounts)).bind fun stanza ↦ Dict.get stanza "tenant_id"

/-- What a login of the input depends on. -/
structure Combination where
  account : Option String
  tenant : Option String
  environment : Option String
  location : Option String
  deriving DecidableEq

/-- The combination that fields amount to: their own tenant, or else that of the account. -/
def combination (accounts : AccountConf) (payload : Payload) : Combination where
  account := payload.azureAppAccount
  tenant := nonemptyStr? (orStr payload.tenantId (accountTenant accounts payload.azureAppAccount))
  environment := payload.environment
  location := payload.location

/-- The stored combination is one that `account_validation` has accepted. -/
def Accepted (accounts : AccountConf) (s : InputState) : Prop :=
  ∀ stanza, s.stanza = some stanza →
    combination accounts (payloadOf stanza) ∈ s.accepted.map (combination accounts)

/-- An edit that leaves out the tenant finds none in the stanza, or the one that its account has, or
names the account and the environment or location of the stanza. -/
def KeepsTenant (accounts : AccountConf) (payload : Fields) (stanza : Fields) : Prop :=
  Dict.get payload "tenant_id" = none →
    nonemptyStr? (Dict.get stanza "tenant_id") = none ∨
    Dict.get stanza "tenant_id" = accountTenant accounts (Dict.get payload "azure_app_account") ∨
    Dict.get payload "azure_app_account" = Dict.get stanza "azure_app_account" ∧
      Dict.get payload "environment" = Dict.get stanza "environment" ∧
      Dict.get payload "location" = Dict.get stanza "location"

/-- The validation accepts the payload. -/
def Validates {accounts : AccountConf} (answers : Answers accounts) (payload : Fields) : Prop :=
  (do
    let v ← AccountValidator.init (payloadOf payload)
    v.validate answers.login) = .ok ()

/-- Every edit that is accepted, and does not only enable or disable the stanza, keeps the tenant
right. -/
def Careful {t : InputType} {accounts : AccountConf} (s : InputState) (a : Action t accounts) :
    Prop :=
  match a.op with
  | .create _ _ => True
  | .edit _ callerArgs => Dict.get callerArgs.payload "disabled" = none →
      Validates a.answers callerArgs.payload →
      ∀ stanza, s.stanza = some stanza → KeepsTenant accounts callerArgs.payload stanza

/-! ## Fields of an edited stanza -/

theorem get_merge (data stanza : Fields) (key : String) :
    Dict.get (merge data stanza) key = (Dict.get data key).or (Dict.get stanza key) := by
  have hfilter := Dict.get_filter (fun k ↦ (Dict.get data k).isNone) stanza key
  rw [merge, Dict.get, List.lookup_append, ← Dict.get, ← Dict.get, hfilter]
  cases Dict.get data key <;> rfl

theorem Supported.get_eq_none {t : InputType} {data : Fields} {key : String}
    (h : Supported t data) (hkey : key ∉ (fields t).map RestField.name) :
    Dict.get data key = none := by
  refine List.lookup_eq_none_iff.mpr fun p hp ↦ ?_
  rw [bne_iff_ne]
  rintro rfl
  exact hkey (h p hp)

theorem Supported.merge {t : InputType} {data stanza : Fields} (hdata : Supported t data)
    (hstanza : Supported t stanza) : Supported t (merge data stanza) := by
  intro p hp
  rcases List.mem_append.mp hp with hp | hp
  · exact hdata p hp
  · exact hstanza p (List.mem_of_mem_filter hp)

theorem CallerArgs.supported_payload {t : InputType} (callerArgs : CallerArgs t) :
    Supported t callerArgs.payload := by
  intro p hp
  obtain ⟨q, hq, rfl⟩ := List.mem_map.mp hp
  exact callerArgs.supported q hq

/-- An input has one of the two only. -/
theorem Supported.environment_or_location {t : InputType} {data : Fields} (h : Supported t data) :
    t.byEnvironment = true ∧ Dict.get data "location" = none ∨
      t.byEnvironment = false ∧ Dict.get data "environment" = none := by
  cases t with
  | incidents => exact Or.inl ⟨rfl, h.get_eq_none (by decide)⟩
  | advancedHunting => exact Or.inl ⟨rfl, h.get_eq_none (by decide)⟩
  | alerts => exact Or.inr ⟨rfl, h.get_eq_none (by decide)⟩
  | machines => exact Or.inr ⟨rfl, h.get_eq_none (by decide)⟩

/-- What a payload has that is validated. -/
structure Complete (payload : Payload) : Prop where
  account : truthyStr payload.azureAppAccount = true
  place : truthyStr payload.environment = true ∨ truthyStr payload.location = true

theorem Validates.complete {accounts : AccountConf} {answers : Answers accounts} {data : Fields}
    (h : Validates answers data) : Complete (payloadOf data) := by
  obtain ⟨v, hinit, hvalidate⟩ := bind_eq_ok_iff.mp h
  obtain ⟨resolved, hresolve, -⟩ := bind_eq_ok_iff.mp hvalidate
  obtain ⟨credentials, -, hresolve⟩ := bind_eq_ok_iff.mp hresolve
  obtain ⟨urls, hurls, -⟩ := bind_eq_ok_iff.mp hresolve
  rw [AccountValidator.init] at hinit
  split_ifs at hinit
  · cases hinit
  · obtain ⟨account, haccount, hreturn⟩ := bind_eq_ok_iff.mp hinit
    obtain rfl := Except.ok.inj hreturn
    refine ⟨?_, ?_⟩
    · rw [truthyStr_eq_isSome, required_eq_ok_iff.mp haccount]
      rfl
    · rw [AccountValidator.getMicrosoftUrls] at hurls
      split_ifs at hurls with henvironment hlocation
      · exact Or.inl henvironment
      · exact Or.inr hlocation

theorem get_merge_of_truthy {data stanza : Fields} {key : String}
    (h : truthyStr (Dict.get data key) = true) :
    Dict.get (merge data stanza) key = Dict.get data key := by
  rw [get_merge]
  cases hdata : Dict.get data key with
  | none => rw [hdata] at h; cases h
  | some v => rfl

/-- Only the tenant of a validated payload can be that of the stanza. -/
theorem payloadOf_merge {t : InputType} {data stanza : Fields} (hdata : Supported t data)
    (hstanza : Supported t stanza) (hcomplete : Complete (payloadOf data)) :
    payloadOf (merge data stanza) = { payloadOf data with
      tenantId := (Dict.get data "tenant_id").or (Dict.get stanza "tenant_id") } := by
  have haccount : Dict.get (merge data stanza) "azure_app_account" =
      Dict.get data "azure_app_account" := get_merge_of_truthy hcomplete.account
  have hplace : Dict.get (merge data stanza) "environment" = Dict.get data "environment" ∧
      Dict.get (merge data stanza) "location" = Dict.get data "location" := by
    rcases hdata.environment_or_location with ⟨htype, hnone⟩ | ⟨htype, hnone⟩
    · have hnone' : Dict.get stanza "location" = none := by
        refine (hstanza.environment_or_location.resolve_right fun h ↦ ?_).2
        exact Bool.false_ne_true (h.1.symm.trans htype)
      refine ⟨get_merge_of_truthy (hcomplete.place.resolve_right fun h ↦ ?_), ?_⟩
      · rw [payloadOf, hnone] at h
        cases h
      · rw [get_merge, hnone', Option.or_none]
    · have hnone' : Dict.get stanza "environment" = none := by
        refine (hstanza.environment_or_location.resolve_left fun h ↦ ?_).2
        exact Bool.false_ne_true (htype.symm.trans h.1)
      refine ⟨?_, get_merge_of_truthy (hcomplete.place.resolve_left fun h ↦ ?_)⟩
      · rw [get_merge, hnone', Option.or_none]
      · rw [payloadOf, hnone] at h
        cases h
  rw [payloadOf, haccount, hplace.1, hplace.2, get_merge]
  rfl

theorem combination_with_tenant {accounts : AccountConf} {payload : Payload}
    {tenantId : Option String}
    (h : nonemptyStr? (orStr tenantId (accountTenant accounts payload.azureAppAccount)) =
      nonemptyStr? (orStr payload.tenantId (accountTenant accounts payload.azureAppAccount))) :
    combination accounts { payload with tenantId := tenantId } = combination accounts payload :=
  congrArg (Combination.mk payload.azureAppAccount · payload.environment payload.location) h

/-- A validated payload and what it makes of an accepted stanza amount to the same, or the stanza
keeps what it amounts to. -/
theorem combination_merge {accounts : AccountConf} {t : InputType} {data stanza : Fields}
    (hdata : Supported t data) (hstanza : Supported t stanza)
    (hcomplete : Complete (payloadOf data)) (hkeeps : KeepsTenant accounts data stanza) :
    combination accounts (payloadOf (merge data stanza)) = combination accounts (payloadOf data) ∨
      combination accounts (payloadOf (merge data stanza)) =
        combination accounts (payloadOf stanza) := by
  rw [payloadOf_merge hdata hstanza hcomplete]
  cases htenant : Dict.get data "tenant_id" with
  | some tenant =>
    refine Or.inl ?_
    rw [Option.some_or, ← htenant]
    rfl
  | none =>
    rw [Option.none_or]
    have hown : (payloadOf data).tenantId = none := htenant
    rcases hkeeps htenant with hempty | haccount | ⟨haccount, henvironment, hlocation⟩
    · refine Or.inl (combination_with_tenant ?_)
      rw [nonemptyStr?_orStr, nonemptyStr?_orStr, hempty, hown]
      rfl
    · refine Or.inl (combination_with_tenant ?_)
      rw [nonemptyStr?_orStr, nonemptyStr?_orStr, haccount, hown]
      exact Option.or_self
    · refine Or.inr (congrArg (combination accounts) ?_)
      rw [payloadOf, payloadOf, haccount, henvironment, hlocation]

/-! ## What the handlers do -/

section Rules

variable {accounts : AccountConf} {answers : Answers accounts} {t : InputType} {name : String}
  {data : Fields} {s : InputState}

theorem ends_accountValidation : Ends (accountValidation answers data) s fun r s' ↦
    s'.stanza = s.stanza ∧ match r with
      | .ok () => s'.accepted = s.accepted ++ [payloadOf data] ∧ Validates answers data
      | .error _ => s'.accepted = s.accepted := by
  rw [accountValidation, ends_bind, ends_attempt]
  cases answers.prepare with
  | some e => exact ⟨rfl, rfl⟩
  | none =>
    dsimp only
    rw [ends_bind, ends_liftExcept]
    cases hvalidate : (do
      let v ← AccountValidator.init (payloadOf data)
      v.validate answers.login) with
    | error e => exact ⟨rfl, rfl⟩
    | ok _ => exact ⟨rfl, rfl, hvalidate⟩

theorem ends_save {f : InputState → InputState} :
    Ends (remotely answers.save f) s fun _ s' ↦ s' = s ∨ s' = f s := by
  rw [ends_remotely]
  cases answers.save.fault with
  | none => exact Or.inr rfl
  | some e =>
    dsimp only
    split_ifs
    · exact Or.inr rfl
    · exact Or.inl rfl

theorem preserves_readEntities : Preserves id (readEntities answers) :=
  preserves_get.bind fun _ ↦ preserves_pure _

theorem ends_createStanza : Ends (createStanza answers t name data) s fun _ s' ↦
    s' = s ∨ s' = { s with stanza := some data } := by
  refine (preserves_liftExcept _).ends_bind (fun _ _ h ↦ Or.inl h) fun _ s₁ h₁ ↦ ?_
  obtain rfl : s₁ = s := h₁
  refine preserves_readEntities.ends_bind (fun _ _ h ↦ Or.inl h) fun entities s₂ h₂ ↦ ?_
  obtain rfl : s₂ = s₁ := h₂
  cases entities with
  | some existing => exact Or.inl rfl
  | none =>
    refine (preserves_liftExcept _).ends_bind (fun _ _ h ↦ Or.inl h) fun _ s₃ h₃ ↦ ?_
    obtain rfl : s₃ = s₂ := h₃
    rw [ends_get_bind]
    cases s₃.stanza with
    | some _ => exact Or.inl rfl
    | none => exact ends_save

theorem ends_updateStanza : Ends (updateStanza answers t name data) s fun _ s' ↦
    s' = s ∨ s' = { s with stanza := s.stanza.map (merge data) } := by
  refine preserves_readEntities.ends_bind (fun _ _ h ↦ Or.inl h) fun entities s₁ h₁ ↦ ?_
  obtain rfl : s₁ = s := h₁
  cases entities with
  | none => exact Or.inl rfl
  | some existing =>
    refine (preserves_liftExcept _).ends_bind (fun _ _ h ↦ Or.inl h) fun _ s₂ h₂ ↦ ?_
    obtain rfl : s₂ = s₁ := h₂
    exact ends_save

end Rules

/-! ## Runs -/

/-- What is kept up from one request to the next. -/
structure Inv (t : InputType) (accounts : AccountConf) (s : InputState) : Prop where
  accepted : Accepted accounts s
  supported : ∀ stanza, s.stanza = some stanza → Supported t stanza

section Inv

variable {accounts : AccountConf} {t : InputType} {s s' : InputState} {data : Fields}

theorem Inv.of_stanza_eq (h : Inv t accounts s) (hstanza : s'.stanza = s.stanza)
    (haccepted : s.accepted <+: s'.accepted) : Inv t accounts s' where
  accepted stanza hs' := by
    have hmem := h.accepted stanza (hstanza.symm.trans hs')
    exact List.map_subset _ haccepted.subset hmem
  supported stanza hs' := h.supported stanza (hstanza.symm.trans hs')

theorem ends_accountValidation_inv {answers : Answers accounts} (h : Inv t accounts s) :
    Ends (accountValidation answers data) s fun r s' ↦ Inv t accounts s' ∧
      s'.stanza = s.stanza ∧ (r = .ok () → payloadOf data ∈ s'.accepted ∧
        Validates answers data) := by
  refine ends_accountValidation.mono fun r s' ⟨hstanza, hr⟩ ↦ ?_
  cases r with
  | error e =>
    exact ⟨h.of_stanza_eq hstanza (hr ▸ List.prefix_rfl), hstanza, fun h ↦ absurd h error_ne_ok⟩
  | ok _ =>
    obtain ⟨haccepted, hvalidates⟩ := hr
    refine ⟨h.of_stanza_eq hstanza ?_, hstanza, fun _ ↦ ⟨?_, hvalidates⟩⟩
    · rw [haccepted]
      exact List.prefix_append _ _
    · rw [haccepted]
      exact List.mem_append_right _ (List.mem_singleton_self _)

theorem ends_handleCreate {answers : Answers accounts} {name : String} (h : Inv t accounts s)
    (hdata : Supported t data) :
    Ends (handleCreate answers t name data) s fun _ s' ↦ Inv t accounts s' := by
  rw [handleCreate, ends_bind]
  refine (ends_accountValidation_inv h).mono fun r s₁ ⟨h₁, _, hr⟩ ↦ ?_
  cases r with
  | error e => exact h₁
  | ok _ =>
    refine ends_createStanza.mono ?_
    rintro _ s' (rfl | rfl)
    · exact h₁
    · constructor
      · rintro stanza ⟨⟩
        exact List.mem_map_of_mem (hr rfl).1
      · rintro stanza ⟨⟩
        exact hdata

/-- An edited stanza amounts to what was accepted, now or before, if the edit is careful. -/
theorem Inv.merge (h : Inv t accounts s) (hdata : Supported t data)
    (haccepted : payloadOf data ∈ s.accepted) (hcomplete : Complete (payloadOf data))
    (hkeeps : ∀ stanza, s.stanza = some stanza → KeepsTenant accounts data stanza) :
    Inv t accounts { s with stanza := s.stanza.map (InputStanza.merge data) } where
  accepted stanza' hs' := by
    obtain ⟨stanza, hs, rfl⟩ := Option.map_eq_some_iff.mp hs'
    rcases combination_merge hdata (h.supported stanza hs) hcomplete (hkeeps stanza hs) with
      heq | heq
    · exact heq ▸ List.mem_map_of_mem haccepted
    · exact heq ▸ h.accepted stanza hs
  supported stanza' hs' := by
    obtain ⟨stanza, hs, rfl⟩ := Option.map_eq_some_iff.mp hs'
    exact hdata.merge (h.supported stanza hs)

/-- Enabling and disabling leave alone what the stanza amounts to. -/
theorem Inv.setDisabled (h : Inv t accounts s) (value : String) :
    Inv t accounts
      { s with stanza := s.stanza.map (InputStanza.merge [("disabled", value)]) } where
  accepted stanza' hs' := by
    obtain ⟨stanza, hs, rfl⟩ := Option.map_eq_some_iff.mp hs'
    have hsame : payloadOf (InputStanza.merge [("disabled", value)] stanza) = payloadOf stanza := by
      rw [payloadOf, get_merge, get_merge, get_merge, get_merge]
      rfl
    rw [hsame]
    exact h.accepted stanza hs
  supported stanza' hs' := by
    obtain ⟨stanza, hs, rfl⟩ := Option.map_eq_some_iff.mp hs'
    refine Supported.merge (fun p hp ↦ ?_) (h.supported stanza hs)
    rw [List.mem_singleton.mp hp]
    change "disabled" ∈ _
    cases t <;> decide

theorem ends_handleEdit {answers : Answers accounts} {name : String} (h : Inv t accounts s)
    (hdata : Supported t data)
    (hkeeps : Dict.get data "disabled" = none → Validates answers data →
      ∀ stanza, s.stanza = some stanza → KeepsTenant accounts data stanza) :
    Ends (handleEdit answers t name data) s fun _ s' ↦ Inv t accounts s' := by
  have hvalidate : Ends (validateEdit answers data) s fun r s' ↦ Inv t accounts s' ∧
      s'.stanza = s.stanza ∧ (r = .ok () → Dict.get data "disabled" = none →
        payloadOf data ∈ s'.accepted ∧ Validates answers data) := by
    rw [validateEdit]
    split_ifs with htruthy
    · refine ⟨h, rfl, fun _ hnone ↦ ?_⟩
      rw [hnone] at htruthy
      cases htruthy
    · exact (ends_accountValidation_inv h).mono fun r s' ⟨h', hstanza, hr⟩ ↦
        ⟨h', hstanza, fun hok _ ↦ hr hok⟩
  rw [handleEdit, ends_bind]
  refine hvalidate.mono fun r s₁ ⟨h₁, hstanza, hr⟩ ↦ ?_
  cases r with
  | error e => exact h₁
  | ok _ =>
    dsimp only
    cases hdisabled : Dict.get data "disabled" with
    | none =>
      obtain ⟨haccepted, hvalidates⟩ := hr rfl hdisabled
      refine ends_updateStanza.mono ?_
      rintro _ s' (rfl | rfl)
      · exact h₁
      · refine h₁.merge hdata haccepted hvalidates.complete fun stanza hs ↦ ?_
        exact hkeeps hdisabled hvalidates stanza (hstanza.symm.trans hs)
    | some disabled =>
      refine ends_save.mono ?_
      rintro _ s' (rfl | rfl)
      · exact h₁
      · exact h₁.setDisabled _

end Inv

/-- The step lemma. -/
theorem inv_of_step {accounts : AccountConf} {t : InputType} {s s' : InputState}
    {a : Action t accounts} (h : Inv t accounts s) (hcareful : Careful s a)
    (hstep : step s a = some s') : Inv t accounts s' := by
  have hends : Ends a.handle s fun _ s' ↦ Inv t accounts s' := by
    obtain ⟨op, answers⟩ := a
    cases op with
    | create name callerArgs => exact ends_handleCreate h callerArgs.supported_payload
    | edit name callerArgs => exact ends_handleEdit h callerArgs.supported_payload hcareful
  rw [step] at hstep
  split at hstep
  · rename_i heq
    obtain rfl := Option.some.inj hstep
    exact hends.of_ok heq
  · rename_i heq
    obtain rfl := Option.some.inj hstep
    exact hends.of_error heq

/-- **What is stored has been validated.** In every run of requests to create and edit an input in
which each edit keeps the tenant right, the stored account, effective tenant and environment or
location are a combination that `account_validation` has accepted. -/
theorem accepted_of_run {accounts : AccountConf} {t : InputType} {accepted : List Payload}
    {actions : List (Action t accounts)} {s : InputState}
    (h : Run step Careful ⟨none, accepted⟩ actions s) : Accepted accounts s := by
  have hstart : Inv t accounts ⟨none, accepted⟩ :=
    ⟨fun _ h ↦ absurd h (Option.some_ne_none _).symm,
      fun _ h ↦ absurd h (Option.some_ne_none _).symm⟩
  exact (h.invariant (fun hs hok hstep ↦ inv_of_step hs hok hstep) hstart).accepted

/-! ## An edit of the account -/

def twoAccounts : AccountConf :=
  [("acc", [("username", "id"), ("password", "secret"), ("tenant_id", "t1")]),
    ("other", [("username", "id2"), ("password", "secret2"), ("tenant_id", "t2")])]

/-- Every login is accepted, and everything can be saved. -/
def accepting : Answers twoAccounts where
  prepare := none
  login := { answering [] with accountConf := .ok twoAccounts }
  text _ := ""
  readable := true
  validator _ _ := .ok true
  msg _ _ := ""
  save := ⟨none, true⟩
  accountConf _ h := (Except.ok.inj h).symm

def createIncidents : Action .incidents twoAccounts where
  op := .create "in" {
    data := [("interval", ["300"]), ("index", ["main"]), ("azure_app_account", ["acc"]),
      ("tenant_id", ["t3"]), ("environment", ["commercial"])]
    supported := by decide }
  answers := accepting

/-- The account is changed, with the environment, which is required. -/
def editAccount : Action .incidents twoAccounts where
  op := .edit "in" {
    data := [("azure_app_account", ["other"]), ("environment", ["commercial"])]
    supported := by decide }
  answers := accepting

/-- The same, with the tenant. -/
def editAccountAndTenant : Action .incidents twoAccounts where
  op := .edit "in" {
    data := [("azure_app_account", ["other"]), ("tenant_id", ["t3"]),
      ("environment", ["commercial"])]
    supported := by decide }
  answers := accepting

theorem accepted_of_run_editAccountAndTenant : ∃ s stanza, s.stanza = some stanza ∧
    Dict.get stanza "azure_app_account" = some "other" ∧ Accepted twoAccounts s := by
  obtain ⟨s₁, hcreate, s, hedit, stanza, hs, haccount⟩ : ∃ s₁,
      step ⟨none, []⟩ createIncidents = some s₁ ∧ ∃ s, step s₁ editAccountAndTenant = some s ∧
        ∃ stanza, s.stanza = some stanza ∧
          Dict.get stanza "azure_app_account" = some "other" :=
    ⟨_, rfl, _, rfl, _, rfl, rfl⟩
  have hfirst : Careful ⟨none, []⟩ createIncidents := trivial
  have hsecond : Careful s₁ editAccountAndTenant := by
    intro _ _ _ _ hnone
    cases hnone
  have hrun : Run step Careful ⟨none, []⟩ [createIncidents, editAccountAndTenant] s :=
    .cons hfirst hcreate (.cons hsecond hedit (.nil s))
  exact ⟨s, stanza, hs, haccount, accepted_of_run hrun⟩

/-- The edited stanza has the new account with the old tenant, which was never validated. -/
theorem not_accepted : ¬∀ (t : InputType) (accounts : AccountConf)
    (actions : List (Action t accounts)) (s : InputState),
    Run step (fun _ _ ↦ True) ⟨none, []⟩ actions s → Accepted accounts s := by
  intro h
  obtain ⟨s₁, hcreate, s, hedit, stanza, hs, hstored, haccepted⟩ : ∃ s₁,
      step ⟨none, []⟩ createIncidents = some s₁ ∧ ∃ s, step s₁ editAccount = some s ∧
        ∃ stanza, s.stanza = some stanza ∧
          combination twoAccounts (payloadOf stanza) =
            ⟨some "other", some "t3", some "commercial", none⟩ ∧
          s.accepted.map (combination twoAccounts) =
            [⟨some "acc", some "t3", some "commercial", none⟩,
              ⟨some "other", some "t2", some "commercial", none⟩] :=
    ⟨_, rfl, _, rfl, _, rfl, rfl, rfl⟩
  have hmem := h .incidents twoAccounts [createIncidents, editAccount] s
    (.cons trivial hcreate (.cons trivial hedit (.nil s))) stanza hs
  rw [hstored, haccepted] at hmem
  exact absurd hmem (by decide)

end InputStanza

end MsSecurity
