import MsSecurity.Python.JsonText
import MsSecurity.Rest.Stanza
import MsSecurity.Secrets.StoredPasswords

/-!
# Secrets behind a configuration page

The fields of a stanza that are secrets are kept as one password, the JSON text of a dictionary, and
the stanza has six stars in their place. Stars that come in mean that a secret stays as it is, and
any other text, in a request or in the file itself, is a secret to be put away.
-/

namespace MsSecurity

open InputStanza (Fields)

/-- The secrets of an endpoint: the manager of its realm, and its fields and which are encrypted. -/
structure RestCredentials where
  manager : CredentialManager
  fields : List (String × Bool)

namespace RestCredentials

/-- `PASSWORD`. -/
def mask : String := "******"

variable (credentials : RestCredentials)

/-- `get_encrypted_field_names`. -/
def encryptedFieldNames : List String := (credentials.fields.filter Prod.snd).map Prod.fst

/-! ## The passwords -/

/-- `RestCredentialsContext.load`. -/
def load (string : String) : Except PyError (Dict String) :=
  match JsonText.loads string with
  | some data => .ok data
  | none => .error (.restError 500 "Fail to load encrypted string, invalid JSON")

/-- `_get`. -/
def get (name : String) : EStateM PyError Passwords (Dict String) := do
  let string ← credentials.manager.getPassword name
  liftExcept (load string)

/-- `_set`. -/
def set (name : String) (data : Dict String) : EStateM PyError Passwords Unit :=
  credentials.manager.setPassword name (JsonText.dumps data)

/-- `delete`. -/
def delete (name : String) : EStateM PyError Passwords Unit :=
  tryCatch (credentials.manager.deletePassword name) fun e ↦
    if e = CredentialManager.credentialNotExist then pure () else throw e

/-- `try: self._get(name) except CredentialNotExistException: None`. -/
def getStored (name : String) : EStateM PyError Passwords (Option (Dict String)) :=
  tryCatch (do return some (← credentials.get name)) fun e ↦
    if e = CredentialManager.credentialNotExist then return none else throw e

/-- `original_clear_password and original_clear_password.get(field_name)`. -/
def storedField (original : Option (Dict String)) (field : String) : Option String :=
  nonemptyStr? (Dict.get (original.getD []) field)

/-! ## Requests -/

/-- `encrypt_for_create`, with the data it leaves. -/
def encryptForCreate (name : String) (data : Fields) : EStateM PyError Passwords Fields := do
  let (data, encrypting) := credentials.encryptedFieldNames.foldl
    (fun (data, encrypting) field ↦
      match nonemptyStr? (Dict.get data field) with
      | some value => (setKey data field mask, setKey encrypting field value)
      | none => (data, encrypting)) (data, ([] : Dict String))
  if encrypting ≠ [] then credentials.set name encrypting
  return data

/-- The body of the loop of `encrypt_for_update`. -/
def encryptField (name : String) (data : Fields) (encrypting : Dict String) (field : String) :
    EStateM PyError Passwords (Fields × Dict String) := do
  match Dict.get data field with
  | some value =>
    if value ≠ "" then
      if value ≠ mask then return (setKey data field mask, setKey encrypting field value)
      else
        match storedField (← credentials.getStored name) field with
        | some original => return (data, setKey encrypting field original)
        | none => return (data, setKey encrypting field value)
    else return (setKey data field "", encrypting)
  | none =>
    match storedField (← credentials.getStored name) field with
    | some original => return (setKey data field mask, setKey encrypting field original)
    | none => return (data, encrypting)

def encryptFields (name : String) : Fields → Dict String → List String →
    EStateM PyError Passwords (Fields × Dict String)
  | data, encrypting, [] => return (data, encrypting)
  | data, encrypting, field :: rest => do
    let (data, encrypting) ← credentials.encryptField name data encrypting field
    encryptFields name data encrypting rest

/-- `encrypt_for_update`, with the data it leaves. -/
def encryptForUpdate (name : String) (data : Fields) : EStateM PyError Passwords Fields := do
  if credentials.encryptedFieldNames = [] then return data
  else
    let (data, encrypting) ←
      credentials.encryptFields name data [] credentials.encryptedFieldNames
    if encrypting ≠ [] then credentials.set name encrypting else credentials.delete name
    return data

/-- `d == e`. -/
def sameDict (d e : Dict String) : Bool :=
  d.length = e.length ∧ ∀ p ∈ d, Dict.get e p.1 = some p.2

/-- The loop of `decrypt_for_get` over the fields, with the secrets that are stored. -/
def decryptFields (clear : Dict String) : Fields → Dict String → Fields → List String →
    Except PyError (Fields × Dict String × Fields)
  | data, encrypting, toWrite, [] => .ok (data, encrypting, toWrite)
  | data, encrypting, toWrite, field :: rest =>
    match nonemptyStr? (Dict.get data field) with
    | some value =>
      if value ≠ mask then
        decryptFields clear data (setKey encrypting field value) (setKey toWrite field mask) rest
      else do
        let original ← Dict.getItem clear field
        decryptFields clear (setKey data field original) (setKey encrypting field original)
          toWrite rest
    | none => decryptFields clear data encrypting toWrite rest

/-- The same loop where nothing is stored. -/
def encryptRaw (data : Fields) (fields : List String) : Dict String × Fields :=
  fields.foldl (fun (encrypting, toWrite) field ↦
    match nonemptyStr? (Dict.get data field) with
    | some value =>
      if value ≠ mask then (setKey encrypting field value, setKey toWrite field mask)
      else (setKey encrypting field mask, toWrite)
    | none => (encrypting, toWrite)) ([], [])

/-- `decrypt_for_get`: what is to be written to the file, and the data it leaves. -/
def decryptForGet (name : String) (data : Fields) :
    EStateM PyError Passwords (Fields × Fields) := do
  if credentials.encryptedFieldNames = [] then return ([], data)
  else
    match ← credentials.getStored name with
    | some clear =>
      let (data, encrypting, toWrite) ← liftExcept
        (decryptFields clear data [] [] credentials.encryptedFieldNames)
      if encrypting ≠ [] ∧ ¬sameDict clear encrypting then credentials.set name encrypting
      return (toWrite, data)
    | none =>
      let (encrypting, toWrite) := encryptRaw data credentials.encryptedFieldNames
      if encrypting ≠ [] then credentials.set name encrypting
      return (toWrite, data)

/-! ## A stanza of a response -/

/-- The body of the loop of `_filter`. -/
def filterField : Fields × Dict String × Dict String → String × Bool →
    Fields × Dict String × Dict String
  | (data, encrypted, encrypting), (field, false) => (data, Dict.del encrypted field, encrypting)
  | (data, encrypted, encrypting), (field, true) =>
    match Dict.get data field with
    | none => (data, encrypted, encrypting)
    | some value =>
      if value = mask ∨ value = "" then (data, encrypted, encrypting)
      else (setKey data field mask, Dict.del encrypted field, setKey encrypting field value)

/-- `_filter`: the data and the stored secrets it leaves, and what is to be encrypted. -/
def filterFields (data : Fields) (encrypted : Dict String) : Fields × Dict String × Dict String :=
  credentials.fields.foldl filterField (data, encrypted, [])

/-- `_merge`: the two dictionaries it leaves. -/
def mergeFields (encrypted encrypting : Dict String) : Dict String × Dict String :=
  credentials.encryptedFieldNames.foldl (fun (encrypted, encrypting) field ↦
    match Dict.get encrypting field with
    | some value =>
      if value ≠ "" then (setKey encrypted field mask, encrypting)
      else (setKey encrypted field "", Dict.del encrypting field)
    | none =>
      match nonemptyStr? (Dict.get encrypted field) with
      | some value => (Dict.del encrypted field, setKey encrypting field value)
      | none => (encrypted, encrypting)) (encrypted, encrypting)

/-- `d.update(e)`. -/
def updateDict (d e : Dict String) : Dict String := e.foldl (fun d p ↦ setKey d p.1 p.2) d

/-- `decrypt`: what is to be written to the file, and the data it leaves. -/
def decrypt (name : String) (data : Fields) : EStateM PyError Passwords (Dict String × Fields) := do
  let stored ← credentials.getStored name
  let (data, encrypted, encrypting) := credentials.filterFields data (stored.getD [])
  let (encrypted, encrypting) := credentials.mergeFields encrypted encrypting
  if stored.isSome ∨ encrypting ≠ [] then credentials.set name encrypting
  return (encrypted, updateDict data encrypting)

/-! ## All stanzas -/

/-- A stanza of a response: its name and its content. -/
abbrev Entry := String × Fields

/-- The loop over the secrets of a stanza: its content, the secrets, and whether stars are to be
written to the file, and the secrets to be put away. -/
def mergeContent (content : Fields) (clear : Dict String) : Fields × Dict String × Bool × Bool :=
  clear.foldl (fun (content, clear, needWriteMagic, needWriteBack) (k, v) ↦
    match Dict.get content k with
    | some value =>
      if value = mask then (setKey content k v, clear, needWriteMagic, needWriteBack)
      else if value = "" then (content, setKey clear k "", needWriteMagic, true)
      else (content, setKey clear k value, true, true)
    | none => (content, setKey clear k "", needWriteMagic, true)) (content, clear, false, false)

/-- The body of the loop over stanzas with secrets: the content, and whether it has changed. -/
def mergeExisting (name : String) (content : Fields) (clear : Dict String) :
    EStateM PyError Passwords (Fields × Bool) := do
  let (content, clear, needWriteMagic, needWriteBack) := mergeContent content clear
  if needWriteBack then
    let clear := clear.filter fun p ↦ p.2 ≠ ""
    if clear ≠ [] then credentials.set name clear else credentials.delete name
  return (content, needWriteMagic)

/-- The loop over the stanzas with secrets: all stanzas, and those that have changed. -/
def mergeStanzas (passwordDict : List (String × Dict String)) : List Entry →
    EStateM PyError Passwords (List Entry × List Entry)
  | [] => return ([], [])
  | (name, content) :: rest =>
    match passwordDict.lookup name with
    | some clear => do
      let (content, changed) ← credentials.mergeExisting name content clear
      let (entries, changes) ← mergeStanzas passwordDict rest
      return ((name, content) :: entries, if changed then (name, content) :: changes else changes)
    | none => do
      let (entries, changes) ← mergeStanzas passwordDict rest
      return ((name, content) :: entries, changes)

/-- The secrets in the content of a stanza without a password. -/
def clearFields (content : Fields) : Dict String :=
  credentials.encryptedFieldNames.foldl (fun clear field ↦
    match nonemptyStr? (Dict.get content field) with
    | some value => setKey clear field value
    | none => clear) []

/-- The loop over the stanzas without a password. -/
def encryptOthers : List Entry → EStateM PyError Passwords Unit
  | [] => pure ()
  | (name, content) :: rest => do
    if credentials.clearFields content ≠ [] then
      credentials.set name (credentials.clearFields content)
    encryptOthers rest

/-- `json.loads`, outside `RestCredentialsContext`. -/
def loadPassword (password : CredentialManager.ClearStanza) :
    Except PyError (String × Dict String) :=
  match JsonText.loads password.clearPassword with
  | some clear => .ok (password.username, clear)
  | none => .error (.valueError "")

/-- `decrypt_all`: the stanzas it leaves, and those that are to be masked in the file. -/
def decryptAll (entries : List Entry) : EStateM PyError Passwords (List Entry × List Entry) := do
  let allPasswords ← credentials.manager.getClearPasswords
  let realmPasswords := allPasswords.filter fun p ↦ p.realm = credentials.manager.realm
  let passwordDict := dictOf (← liftExcept (realmPasswords.mapM loadPassword))
  let others := entries.filter fun entry ↦ (passwordDict.lookup entry.1).isNone
  let (entries, changes) ← credentials.mergeStanzas passwordDict entries
  credentials.encryptOthers others
  return (entries, changes ++ others)

end RestCredentials

end MsSecurity
