import MsSecurity.Rest.AccountRemoval
import MsSecurity.Secrets.RestCredentials
import MsSecurity.Transition.Relational

/-!
# The page of the accounts

A request to the page goes through `RestHandler`, which reads and writes the stanzas of the file by
requests of its own. On the way in it puts secrets away and stars in their place. On the way out it
takes up the secrets that stand in the file, and hides them.

Any request for a stanza may fail. The requests for the passwords are taken to succeed here; those
that do not are the subject of `RetriedPasswords`.
-/

namespace MsSecurity

open InputStanza (Fields merge checkNameForCreate)
open RestCredentials (Entry mask)

/-! ## Fields -/

/-- A field of a page. A validator has a message for a value that it refuses. -/
structure PageField where
  name : String
  required : Bool
  encrypted : Bool
  validator : Option (String → Option String)

/-- `validator.String`, where no bound is 0. -/
def stringValidator (minLen maxLen : ℕ) (value : String) : Option String :=
  let strLen := value.length
  if minLen = 0 ∧ maxLen ≠ 0 ∧ maxLen < strLen then
    some ("String should be shorter than " ++ toString maxLen)
  else if minLen ≠ 0 ∧ maxLen = 0 ∧ strLen < minLen then
    some ("String should be no shorter than " ++ toString minLen)
  else if minLen ≠ 0 ∧ maxLen ≠ 0 ∧ (strLen < minLen ∨ maxLen < strLen) then
    some ("String length should be between " ++ toString minLen ++ " and " ++ toString maxLen)
  else none

/-- `RestField.validate`. -/
def PageField.validate (field : PageField) (data : Fields) (existing : Option Fields) :
    Except PyError Unit :=
  let missing : PyError := .restError 400 ("Required field is missing: " ++ field.name)
  let value := Dict.get data field.name
  if existing.getD [] ≠ [] ∧ value.isSome ∧ nonemptyStr? value = none ∧ field.required then
    .error missing
  else
    match nonemptyStr? value with
    | none => if existing = none ∧ field.required then .error missing else .ok ()
    | some v =>
      match field.validator.bind fun validator ↦ validator v with
      | some msg => .error (.restError 400 msg)
      | none => .ok ()

/-- `RestEndpoint.validate`. -/
def validateFields (data : Fields) (existing : Option Fields) : List PageField → Except PyError Unit
  | [] => .ok ()
  | field :: rest => do
    field.validate data existing
    validateFields data existing rest

/-! ## splunkd -/

/-- What splunkd keeps for a page: the passwords, and the stanzas of the file. -/
structure ConfServer where
  passwords : Passwords
  conf : Dict Fields

/-- What is done with the passwords, whose own requests are taken to succeed. -/
def withPasswords {α : Type} (x : EStateM PyError Passwords α) : EStateM PyError ConfServer α :=
  zoom ConfServer.passwords (fun passwords s ↦ { s with passwords }) id x

/-- The stanza, with some of its fields overwritten. -/
def ConfServer.write (name : String) (body : Fields) (s : ConfServer) : ConfServer :=
  { s with conf := setKey s.conf name (merge body ((Dict.get s.conf name).getD [])) }

/-- A request to change a stanza. -/
def postStanza (change : RemoteChange) (name : String) (body : Fields) :
    EStateM PyError ConfServer Unit := do
  match Dict.get (← get).conf name with
  | none => throw (.httpError 404)
  | some _ => remotely change (ConfServer.write name body)

/-- A request to create a stanza. -/
def createStanza (change : RemoteChange) (name : String) (body : Fields) :
    EStateM PyError ConfServer Unit := do
  match Dict.get (← get).conf name with
  | some _ => throw (.httpError 409)
  | none => remotely change (ConfServer.write name body)

/-- A request to delete a stanza. -/
def deleteStanza (change : RemoteChange) (name : String) : EStateM PyError ConfServer Unit := do
  match Dict.get (← get).conf name with
  | none => throw (.httpError 404)
  | some _ => remotely change fun s ↦ { s with conf := Dict.del s.conf name }

/-- How the requests of one operation end. -/
structure RestAnswers where
  reload : Option PyError
  read : Option PyError
  /-- Putting stars into a stanza. -/
  mask : String → RemoteChange
  save : RemoteChange
  remove : RemoteChange
  /-- Parsing the answer to a deletion, and the stanzas that it lists. -/
  body : Option PyError
  shown : String → Bool
  /-- `str` of an exception, or its traceback. -/
  text : PyError → String

/-- The handler of a page. -/
structure RestHandler where
  manager : CredentialManager
  fields : List PageField

namespace RestHandler

def credentials (handler : RestHandler) : RestCredentials where
  manager := handler.manager
  fields := handler.fields.map fun field ↦ (field.name, field.encrypted)

section Requests

variable (handler : RestHandler) (answers : RestAnswers)

/-- What `_decode_response` makes of an exception. -/
def restErrorOf : PyError → PyError
  | .restError status msg => .restError status msg
  | .httpError status => .restError status (answers.text (.httpError status))
  | e => if e.isException then .restError 500 (answers.text e) else e

/-- `_decode_response`. No field has a converter. -/
def decodeResponse {α : Type} (x : EStateM PyError ConfServer α) : EStateM PyError ConfServer α :=
  tryCatch x fun e ↦ throw (restErrorOf answers e)

/-- The secrets that are not empty are replaced by stars. -/
def hideSecrets (data : Fields) : Fields :=
  handler.credentials.encryptedFieldNames.foldl (fun data field ↦
    match nonemptyStr? (Dict.get data field) with
    | some _ => setKey data field mask
    | none => data) data

/-- The body of the loop of `_format_response`. -/
def formatEntry (get decrypt : Bool) (name : String) (data : Fields) :
    EStateM PyError ConfServer Entry := do
  let data ←
    if get then do
      let (masked, data) ← withPasswords (handler.credentials.decryptForGet name data)
      if masked ≠ [] then postStanza (answers.mask name) name masked
      pure data
    else pure data
  return (name, if decrypt then data else handler.hideSecrets data)

/-- `get`. -/
def getEntity (name : String) (decrypt : Bool) : EStateM PyError ConfServer (List Entry) :=
  decodeResponse answers do
    attempt answers.reload
    attempt answers.read
    match Dict.get (← get).conf name with
    | none => throw (.httpError 404)
    | some data => return [← handler.formatEntry answers true decrypt name data]

/-- The fields of a stanza that are to be replaced by stars. -/
def maskedFields (content : Fields) : Fields :=
  handler.credentials.encryptedFieldNames.foldl (fun masked field ↦
    match nonemptyStr? (Dict.get content field) with
    | some value => if value ≠ mask then setKey masked field mask else masked
    | none => masked) []

/-- The loop over the stanzas that have changed. -/
def maskChanges : List Entry → EStateM PyError ConfServer Unit
  | [] => pure ()
  | (name, content) :: rest => do
    if handler.maskedFields content ≠ [] then
      postStanza (answers.mask name) name (handler.maskedFields content)
    maskChanges rest

/-- `_encrypt_raw_credentials`. -/
def encryptRawCredentials (entries : List Entry) : EStateM PyError ConfServer (List Entry) := do
  let (entries, changes) ← withPasswords (handler.credentials.decryptAll entries)
  handler.maskChanges answers changes
  return entries

/-- `all`. -/
def all (decrypt : Bool) : EStateM PyError ConfServer (List Entry) :=
  decodeResponse answers do
    attempt answers.reload
    attempt answers.read
    let entries := (← get).conf
    let entries ←
      if handler.credentials.encryptedFieldNames ≠ [] then
        handler.encryptRawCredentials answers entries
      else pure entries
    return if decrypt then entries
      else entries.map fun entry ↦ (entry.1, handler.hideSecrets entry.2)

/-- `check_existing`: a stanza that cannot be read passes for one that does not exist. -/
def checkExisting (existing : Bool) (name : String) :
    EStateM PyError ConfServer (Option Fields) := do
  if ¬existing then liftExcept (checkNameForCreate name)
  let entities ← tryCatch (handler.getEntity answers name false) fun e ↦
    match e with
    | .restError _ _ => pure []
    | e => throw e
  if existing ∧ entities = [] then throw (.restError 404 ("\"" ++ name ++ "\" does not exist"))
  else if ¬existing ∧ entities ≠ [] then
    throw (.restError 409 ("Name \"" ++ name ++ "\" is already in use"))
  else return entities.head?.map Prod.snd

/-- The answer of a request that saves a stanza. -/
def respond (name : String) : EStateM PyError ConfServer (List Entry) := do
  let data := (Dict.get (← get).conf name).getD []
  return [← handler.formatEntry answers false false name data]

/-- `create`. -/
def create (name : String) (data : Fields) : EStateM PyError ConfServer (List Entry) :=
  decodeResponse answers do
    let existing ← handler.checkExisting answers false name
    liftExcept (validateFields data existing handler.fields)
    let data ← withPasswords (handler.credentials.encryptForCreate name (setKey data "name" name))
    createStanza answers.save name (Dict.del data "name")
    handler.respond answers name

/-- `update`. -/
def update (name : String) (data : Fields) : EStateM PyError ConfServer (List Entry) :=
  decodeResponse answers do
    let existing ← handler.checkExisting answers true name
    liftExcept (validateFields data existing handler.fields)
    let data ← withPasswords (handler.credentials.encryptForUpdate name data)
    postStanza answers.save name data
    handler.respond answers name

/-- `_need_decrypt`. -/
def needDecrypt (data : Fields) (decrypt : Bool) : Bool :=
  (handler.credentials.encryptedFieldNames.any fun field ↦
    match nonemptyStr? (Dict.get data field) with
    | some value => value ≠ mask
    | none => false) ||
  decrypt && handler.credentials.encryptedFieldNames ≠ []

/-- `_load_credentials`. -/
def loadCredentials (name : String) (data : Fields) : EStateM PyError ConfServer Fields := do
  let (masked, data) ← withPasswords (handler.credentials.decrypt name data)
  if masked ≠ [] then postStanza (answers.mask name) name masked
  return data

/-- `_clean_credentials`. -/
def cleanCredentials (data : Fields) : Fields :=
  handler.credentials.encryptedFieldNames.foldl Dict.del data

/-- The body of the loop of `_flay_response`. -/
def flayEntry (name : String) (data : Fields) : EStateM PyError ConfServer Entry := do
  let data ←
    if handler.needDecrypt data false then handler.loadCredentials answers name data
    else pure data
  return (name, handler.cleanCredentials data)

/-- `_flay_response`. -/
def flayResponse : List Entry → EStateM PyError ConfServer (List Entry)
  | [] => return []
  | (name, data) :: rest => do
    let entry ← handler.flayEntry answers name data
    return entry :: (← flayResponse rest)

/-- `delete`. -/
def delete (name : String) : EStateM PyError ConfServer (List Entry) :=
  decodeResponse answers do
    deleteStanza answers.remove name
    if handler.credentials.encryptedFieldNames ≠ [] then
      withPasswords (handler.credentials.delete name)
    attempt answers.body
    handler.flayResponse answers ((← get).conf.filter fun p ↦ answers.shown p.1)

/-! ## The requests of the page -/

/-- `handleList`. -/
def handleList (id cred : Option String) : EStateM PyError ConfServer (List Entry) :=
  match nonemptyStr? id with
  | some name => handler.getEntity answers name (cred.any isTrueStr)
  | none => handler.all answers (cred.any isTrueStr)

/-- `handleCreate`. -/
def handleCreate (name : String) (payload : Fields) : EStateM PyError ConfServer (List Entry) :=
  handler.create answers name payload

/-- `handleEdit`, with a payload without `disabled`, which is not a field of the page. -/
def handleEdit (name : String) (payload : Fields) : EStateM PyError ConfServer (List Entry) :=
  handler.update answers name payload

/-- `handleRemove` of the page of the accounts. -/
def handleRemove (listing : Except PyError Json) (name : String) :
    EStateM PyError ConfServer (List Entry) := do
  liftExcept (AccountRemoval.checkUnused listing name)
  handler.delete answers name

end Requests

end RestHandler

end MsSecurity
