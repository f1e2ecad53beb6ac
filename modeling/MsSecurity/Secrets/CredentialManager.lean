import Mathlib.Data.List.Sort
import MsSecurity.Python.Dictionary
import MsSecurity.Python.Digits
import MsSecurity.Transition.Stateful

/-!
# Passwords in sections

splunkd encrypts texts of 255 characters at most. `CredentialManager` cuts a password into sections
and stores each one under the name of the user with a number, and after the last one an end mark.
What an earlier, longer password has left behind stays where it is, beyond the mark.

Users, here, are texts without the characters that mean something in a pattern or in the name of a
stanza. The names of accounts are such texts.
-/

namespace MsSecurity

/-! ## The stanzas -/

/-- A stanza of `passwords.conf`: its realm and user name, and the clear password. -/
abbrev StoragePassword := (String × String) × String

namespace StoragePassword

variable (password : StoragePassword)

def realm : String := password.1.1

def username : String := password.1.2

def clearPassword : String := password.2

/-- The name splunkd gives the stanza, in which nothing of a user's name has to be escaped. -/
def name : String := password.realm ++ ":" ++ password.username ++ ":"

end StoragePassword

abbrev Passwords := List StoragePassword

/-- Characters that are not found in the name of a user. -/
def specialChars : List Char :=
  ['`', ':', '\n', '\\', '.', '^', '$', '*', '+', '?', '{', '}', '[', ']', '|', '(', ')']

/-- The name of a user. -/
structure PlainName (user : String) : Prop where
  nonempty : user ≠ ""
  plain : ∀ c ∈ user.toList, c ∉ specialChars

instance (user : String) : Decidable (PlainName user) :=
  haveI := List.decidableBAll (· ∉ specialChars) user.toList
  decidable_of_iff (user ≠ "" ∧ ∀ c ∈ user.toList, c ∉ specialChars)
    ⟨fun h ↦ ⟨h.1, h.2⟩, fun h ↦ ⟨h.1, h.2⟩⟩

/-- The manager of a realm, and the order in which splunkd lists its stanzas. -/
structure CredentialManager where
  realm : String
  plain : ∀ c ∈ realm.toList, c ≠ '`' ∧ c ≠ '\n'
  order : Passwords → Passwords
  perm : ∀ passwords, (order passwords).Perm passwords

namespace CredentialManager

/-- `SPLUNK_CRED_LEN_LIMIT`. -/
def splunkCredLenLimit : ℕ := 255

/-- `SEP`. -/
def sep : String := "``splunk_cred_sep``"

/-- `END_MARK`. -/
def endMark : String :=
  sep ++ "S" ++ sep ++ "P" ++ sep ++ "L" ++ sep ++ "U" ++ sep ++ "N" ++ sep ++ "K" ++ sep

/-- `CredentialNotExistException`. -/
def credentialNotExist : PyError := .other "CredentialNotExistException"

/-! ## Storing -/

/-- `self.SEP.join([user, str(index)])`. -/
def partialUser (user : String) (index : ℕ) : String := user ++ sep ++ toString index

/-- The sections of a text, which is no longer than the fuel. -/
def sectionsOf : ℕ → List Char → List String
  | 0, _ => []
  | fuel + 1, text =>
    if text = [] then []
    else String.ofList (text.take splunkCredLenLimit) ::
      sectionsOf fuel (text.drop splunkCredLenLimit)

/-- What is stored for a password. -/
def sections (password : String) : List String :=
  sectionsOf password.toList.length password.toList ++ [endMark]

variable (manager : CredentialManager)

/-- `self._storage_passwords.create`. -/
def createPassword (password user : String) : EStateM PyError Passwords Unit := do
  if (manager.realm, user) ∈ (← get).map Prod.fst then throw (.httpError 409)
  else modify fun passwords ↦ passwords ++ [((manager.realm, user), password)]

/-- `get_raw_passwords_in_realm`. -/
def getRawPasswords : EStateM PyError Passwords Passwords := do
  return manager.order ((← get).filter fun p ↦ p.realm = manager.realm)

/-- The `except` branch of `_update_password`: the stanza is looked for and updated. -/
def replacePassword (user password : String) : EStateM PyError Passwords Unit := do
  let passwords ← manager.getRawPasswords
  match passwords.find? fun p ↦ p.realm = manager.realm ∧ p.username = user with
  | some stanza =>
    modify fun passwords ↦ passwords.map fun p ↦ if p.1 = stanza.1 then (p.1, password) else p
  | none => throw (.valueError ("Can not get the password object for realm: " ++
      manager.realm ++ " user: " ++ user))

/-- `_update_password`. -/
def updatePassword (user password : String) : EStateM PyError Passwords Unit :=
  tryCatch (manager.createPassword password user) fun e ↦
    if e = .httpError 409 then manager.replacePassword user password else throw e

/-- The loop of `set_password`, from a section on. -/
def storeSections (user : String) : ℕ → List String → EStateM PyError Passwords Unit
  | _, [] => pure ()
  | index, text :: rest => do
    manager.updatePassword (partialUser user index) text
    storeSections user (index + 1) rest

/-- `set_password`. -/
def setPassword (user password : String) : EStateM PyError Passwords Unit :=
  manager.storeSections user 1 (sections password)

/-! ## Deleting -/

/-- What follows a text. -/
def afterPrefix : List Char → List Char → Option (List Char)
  | [], text => some text
  | _ :: _, [] => none
  | c :: start, d :: text => if c = d then afterPrefix start text else none

/-- The decimal digits a text starts with. -/
def leadingDigits : List Char → List ℕ
  | [] => []
  | c :: text =>
    match decimalDigit? c with
    | some d => d :: leadingDigits text
    | none => []

/-- `user == username or ent_pattern.match(username)`. -/
def isOfUser (user username : String) : Bool :=
  user = username ∨ (afterPrefix (user ++ sep).toList username.toList).any fun rest ↦
    leadingDigits rest ≠ []

/-- `delete_password`. -/
def deletePassword (user : String) : EStateM PyError Passwords Unit := do
  let passwords ← manager.getRawPasswords
  let deleted := passwords.filter fun p ↦ isOfUser user p.username ∧ p.realm = manager.realm
  modify fun passwords ↦ passwords.filter fun p ↦ p.1 ∉ deleted.map Prod.fst
  if deleted = [] then throw credentialNotExist

/-! ## Reading -/

/-- `(.+)SEP(\d+)` at the start of a text: the longest text for `.+`, and the number. -/
def matchSection : List Char → Option (List Char × ℕ)
  | [] => none
  | c :: text =>
    if c = '\n' then none
    else
      match matchSection text with
      | some (name, index) => some (c :: name, index)
      | none =>
        match (afterPrefix sep.toList text).map leadingDigits with
        | some (digit :: digits) =>
          some ([c], (digit :: digits).foldl (fun value d ↦ 10 * value + d) 0)
        | _ => none

/-- `username.split(SEP)[0]`. -/
def beforeSep : List Char → List Char
  | [] => []
  | c :: text => if (afterPrefix sep.toList (c :: text)).isSome then [] else c :: beforeSep text

/-- The section of which user a stanza is, and which one. -/
def sectionOf (password : StoragePassword) : Option (String × ℕ) :=
  (matchSection password.name.toList).map fun (name, index) ↦ (String.ofList name ++ ":", index)

/-- A stanza of `results`, with the sections of it that have been found. -/
structure ClearStanza where
  name : String
  realm : String
  username : String
  clears : List (ℕ × String)
  clearPassword : String

abbrev Results := List (String × ClearStanza)

/-- The first loop over the stanzas, for sections. -/
def addSection (results : Results) (password : StoragePassword) : Results :=
  match sectionOf password with
  | some (actualName, index) =>
    let stanza := (results.lookup actualName).getD ⟨actualName, password.realm,
      String.ofList (beforeSep password.username.toList), [], ""⟩
    setKey results actualName
      { stanza with clears := setKey stanza.clears index password.clearPassword }
  | none => results

/-- The second loop, for stanzas that an old version has stored whole. -/
def addWhole (results : Results) (password : StoragePassword) : Results :=
  match sectionOf password with
  | some _ => results
  | none =>
    if (results.lookup password.name).isSome then results
    else setKey results password.name
      ⟨password.name, password.realm, password.username, [], password.clearPassword⟩

/-- The sections in the order given, up to the end mark. -/
def joinSections (clears : List (ℕ × String)) : List ℕ → String
  | [] => ""
  | index :: rest =>
    let text := (clears.lookup index).getD ""
    if text ≠ endMark then text ++ joinSections clears rest else ""

/-- The third loop, which merges the sections. -/
def mergeClears (stanza : ClearStanza) : ClearStanza :=
  if stanza.clears ≠ [] then
    { stanza with
      clears := []
      clearPassword := joinSections stanza.clears
        ((stanza.clears.map Prod.fst).insertionSort (· ≤ ·)) }
  else stanza

/-- `_get_clear_passwords`. -/
def clearPasswords (passwords : Passwords) : List ClearStanza :=
  (passwords.foldl addWhole (passwords.foldl addSection [])).map fun p ↦ mergeClears p.2

/-- `get_clear_passwords_in_realm`. -/
def getClearPasswords : EStateM PyError Passwords (List ClearStanza) := do
  return clearPasswords (← manager.getRawPasswords)

/-- `get_password`. -/
def getPassword (user : String) : EStateM PyError Passwords String := do
  let passwords ← manager.getClearPasswords
  match passwords.find? fun p ↦ p.username = user ∧ p.realm = manager.realm with
  | some password => return password.clearPassword
  | none => throw credentialNotExist

end CredentialManager

end MsSecurity
