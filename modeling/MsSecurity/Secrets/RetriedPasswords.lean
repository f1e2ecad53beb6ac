import Mathlib.Data.Stream.Init
import MsSecurity.Python.Effect
import MsSecurity.Secrets.PasswordMap

/-!
# Passwords over requests that fail

Each request of a manager may fail, before or after splunkd has done what it asks for, and its
methods are retried when splunkd refuses. A method that raises may have been half done, for its own
user only. What a caller can rely on is that whatever returns is true of the map of the passwords
(`exists_unreliable_run`): a password that has been set is read until it is set or deleted again,
however many requests fail (`answer_eq_of_unreliable_run`).
-/

namespace MsSecurity

/-- `binding.HTTPError`. -/
def PyError.isHTTPError : PyError → Bool
  | .httpError _ => true
  | _ => false

namespace CredentialManager

/-- The passwords, and how the requests to come end. No request raises the exception by which the
manager says that there is no password. -/
structure UnreliableStore where
  passwords : Passwords
  coming : Stream' RemoteChange
  honest : ∀ n, (coming.get n).fault ≠ some credentialNotExist

namespace UnreliableStore

/-- One request later. -/
def next (store : UnreliableStore) : UnreliableStore where
  passwords := store.passwords
  coming := store.coming.tail
  honest n := store.honest (n + 1)

@[simp] theorem next_passwords (store : UnreliableStore) :
    store.next.passwords = store.passwords := rfl

end UnreliableStore

namespace Retried

variable (manager : CredentialManager)

/-- How the next request ends. -/
def nextRequest : EStateM PyError UnreliableStore RemoteChange := do
  let store ← get
  set store.next
  return store.coming.head

/-- A request for the change `f`. -/
def requestChange (f : Passwords → Passwords) : EStateM PyError UnreliableStore Unit := do
  let request ← nextRequest
  modify fun store ↦ { store with passwords := request.apply f store.passwords }
  attempt request.fault

/-- `self._storage_passwords.create`. -/
def createPassword (password user : String) : EStateM PyError UnreliableStore Unit := do
  match (← get).passwords.lookup (manager.realm, user) with
  | some _ =>
    let request ← nextRequest
    attempt request.fault
    throw (.httpError 409)
  | none => requestChange fun passwords ↦ passwords ++ [((manager.realm, user), password)]

/-- `get_raw_passwords_in_realm`. -/
def getRawPasswords : EStateM PyError UnreliableStore Passwords := do
  let request ← nextRequest
  attempt request.fault
  return manager.order (manager.inRealm (← get).passwords)

/-- The `except` branch of `_update_password`. -/
def replacePassword (user password : String) : EStateM PyError UnreliableStore Unit := do
  let passwords ← getRawPasswords manager
  match passwords.find? fun p ↦ p.realm = manager.realm ∧ p.username = user with
  | some stanza => requestChange fun passwords ↦
      passwords.map fun p ↦ if p.1 = stanza.1 then (p.1, password) else p
  | none => throw (.valueError ("Can not get the password object for realm: " ++
      manager.realm ++ " user: " ++ user))

/-- One try of `_update_password`. -/
def tryUpdatePassword (user password : String) : EStateM PyError UnreliableStore Unit :=
  tryCatch (createPassword manager password user) fun e ↦
    if e = .httpError 409 then replacePassword manager user password else throw e

/-- `_update_password`. -/
def updatePassword (user password : String) : EStateM PyError UnreliableStore Unit :=
  retry PyError.isHTTPError (tryUpdatePassword manager user password) 3

/-- The loop of `set_password`, from a section on. -/
def storeSections (user : String) : ℕ → List String → EStateM PyError UnreliableStore Unit
  | _, [] => pure ()
  | index, text :: rest => do
    updatePassword manager (partialUser user index) text
    storeSections user (index + 1) rest

/-- `set_password`. -/
def setPassword (user password : String) : EStateM PyError UnreliableStore Unit :=
  retry PyError.isHTTPError (storeSections manager user 1 (sections password)) 3

/-- The loop of `delete_password`, over the stanzas that match. -/
def deleteEach : Passwords → EStateM PyError UnreliableStore Unit
  | [] => pure ()
  | stanza :: rest => do
    requestChange fun passwords ↦ passwords.filter fun p ↦ p.1 ≠ stanza.1
    deleteEach rest

/-- One try of `delete_password`. -/
def tryDeletePassword (user : String) : EStateM PyError UnreliableStore Unit := do
  let passwords ← getRawPasswords manager
  let deleted := passwords.filter fun p ↦ isOfUser user p.username ∧ p.realm = manager.realm
  deleteEach deleted
  if deleted = [] then throw credentialNotExist

/-- `delete_password`. -/
def deletePassword (user : String) : EStateM PyError UnreliableStore Unit :=
  retry PyError.isHTTPError (tryDeletePassword manager user) 3

/-- One try of `get_password`. -/
def tryGetPassword (user : String) : EStateM PyError UnreliableStore String := do
  let passwords := clearPasswords (← getRawPasswords manager)
  match passwords.find? fun p ↦ p.username = user ∧ p.realm = manager.realm with
  | some password => return password.clearPassword
  | none => throw credentialNotExist

/-- `get_password`. -/
def getPassword (user : String) : EStateM PyError UnreliableStore String :=
  retry PyError.isHTTPError (tryGetPassword manager user) 3

end Retried

/-! ## What is changed -/

section Touches

variable {manager : CredentialManager} {names names' : String → Prop}
  {before after last : Passwords} {user other : String}

/-- At most the stanzas with these names have been changed. -/
structure Touches (manager : CredentialManager) (names : String → Prop)
    (before after : Passwords) : Prop where
  tidy : manager.Tidy after
  kept : ∀ key, (key.1 = manager.realm → ¬names key.2) → after.lookup key = before.lookup key

theorem Touches.refl (h : manager.Tidy before) : manager.Touches names before before :=
  ⟨h, fun _ _ ↦ rfl⟩

theorem Touches.trans (h : manager.Touches names before after)
    (h' : manager.Touches names after last) : manager.Touches names before last :=
  ⟨h'.tidy, fun key hkey ↦ (h'.kept key hkey).trans (h.kept key hkey)⟩

theorem Touches.mono (h : manager.Touches names before after)
    (hnames : ∀ name, names name → names' name) : manager.Touches names' before after :=
  ⟨h.tidy, fun key hkey ↦ h.kept key fun hrealm hname ↦ hkey hrealm (hnames _ hname)⟩

theorem Touches.setKey (h : manager.Touches names before after) (huser : PlainName user)
    {index : ℕ} (hindex : 0 < index) (hname : names (partialUser user index)) (text : String) :
    manager.Touches names before
      (setKey after (manager.realm, partialUser user index) text) := by
  refine ⟨h.tidy.setKey huser hindex text, fun key hkey ↦ ?_⟩
  rw [lookup_setKey, if_neg, h.kept key hkey]
  rintro rfl
  exact hkey rfl hname

theorem Touches.erase (h : manager.Touches names before after) {key : String × String}
    (hrealm : key.1 = manager.realm) (hname : names key.2) :
    manager.Touches names before (after.filter fun p ↦ p.1 ≠ key) := by
  have hsublist := List.filter_sublist (l := after) (p := fun p ↦ decide (p.1 ≠ key))
  refine ⟨⟨h.tidy.nodup.sublist (hsublist.map _), fun hmem ↦ h.tidy.shape ?_⟩, fun k hk ↦ ?_⟩
  · exact (hsublist.map _).subset hmem
  · rw [lookup_filter fun k ↦ decide (k ≠ key), if_pos, h.kept k hk]
    refine decide_eq_true ?_
    rintro rfl
    exact hk hrealm hname

theorem Touches.clearOf_eq (h : manager.Touches (OfUser user) before after)
    (hbefore : manager.Tidy before) (huser : PlainName user) (hother : PlainName other)
    (hne : other ≠ user) : manager.clearOf after other = manager.clearOf before other :=
  h.tidy.clearOf_congr hbefore hother fun _ hname ↦
    h.kept _ fun _ hof ↦ hne (OfUser.eq hname hof hother huser)

end Touches

/-! ## One method -/

namespace Retried

section Requests

variable {manager : CredentialManager} {store : UnreliableStore} {user name text : String}

theorem ends_nextRequest {Q : Except PyError RemoteChange → UnreliableStore → Prop} :
    Ends nextRequest store Q ↔ Q (.ok store.coming.head) store.next := Iff.rfl

theorem ends_requestChange (f : Passwords → Passwords) :
    Ends (requestChange f) store fun r t ↦ r ≠ .error credentialNotExist ∧
      (t.passwords = f store.passwords ∨
        t.passwords = store.passwords ∧ ∃ e, r = .error e) := by
  have hhonest : store.coming.head.fault ≠ some credentialNotExist := store.honest 0
  rw [requestChange, ends_bind, ends_nextRequest]
  dsimp only
  rw [ends_bind, ends_modify]
  dsimp only
  rw [ends_attempt]
  have hcases := store.coming.head.apply_cases f store.passwords
  cases hfault : store.coming.head.fault with
  | none =>
    rw [hfault] at hcases
    refine ⟨error_ne_ok.symm, hcases.imp_right fun ⟨_, _, he⟩ ↦ ?_⟩
    exact absurd he.symm (Option.some_ne_none _)
  | some e =>
    refine ⟨fun heq ↦ hhonest ?_, hcases.imp_right fun h ↦ ⟨h.1, e, rfl⟩⟩
    rw [hfault, Except.error.inj heq]

theorem ends_getRawPasswords :
    Ends (getRawPasswords manager) store fun r t ↦ t.passwords = store.passwords ∧
      r ≠ .error credentialNotExist ∧
      ∀ listed, r = .ok listed → listed = manager.order (manager.inRealm store.passwords) := by
  have hhonest : store.coming.head.fault ≠ some credentialNotExist := store.honest 0
  rw [getRawPasswords, ends_bind, ends_nextRequest]
  dsimp only
  rw [ends_bind, ends_attempt]
  cases hfault : store.coming.head.fault with
  | none => exact ⟨rfl, error_ne_ok.symm, fun _ h ↦ (Except.ok.inj h).symm⟩
  | some e =>
    refine ⟨rfl, fun heq ↦ hhonest ?_, fun _ h ↦ absurd h error_ne_ok⟩
    rw [hfault, Except.error.inj heq]

/-- The stanza has been set, or an exception is raised and it is as it was. -/
def Sets (manager : CredentialManager) (name text : String) (before : Passwords)
    (r : Except PyError Unit) (after : Passwords) : Prop :=
  after = setKey before (manager.realm, name) text ∨ after = before ∧ ∃ e, r = .error e

theorem ends_createPassword : Ends (createPassword manager text name) store fun r t ↦
    Sets manager name text store.passwords r t.passwords := by
  rw [createPassword, ends_get_bind]
  cases hlookup : store.passwords.lookup (manager.realm, name) with
  | some text' =>
    dsimp only
    rw [ends_bind, ends_nextRequest]
    dsimp only
    rw [ends_bind, ends_attempt]
    cases store.coming.head.fault with
    | none => exact Or.inr ⟨rfl, _, rfl⟩
    | some e => exact Or.inr ⟨rfl, e, rfl⟩
  | none =>
    refine (ends_requestChange _).mono fun r t ⟨_, hend⟩ ↦ hend.imp_left fun hset ↦ ?_
    rw [hset, setKey, if_neg (lookup_eq_none_iff_notMem.mp hlookup)]

theorem ends_replacePassword : Ends (replacePassword manager name text) store fun r t ↦
    Sets manager name text store.passwords r t.passwords := by
  rw [replacePassword, ends_bind]
  refine ends_getRawPasswords.mono fun r t ⟨hsame, _, hlisted⟩ ↦ ?_
  cases r with
  | error e => exact Or.inr ⟨hsame, e, rfl⟩
  | ok listed =>
    obtain rfl := hlisted listed rfl
    dsimp only
    cases hfind : (manager.order (manager.inRealm store.passwords)).find?
        fun p ↦ p.realm = manager.realm ∧ p.username = name with
    | none => exact Or.inr ⟨hsame, _, rfl⟩
    | some stanza =>
      have hfound := List.find?_some hfind
      obtain ⟨hrealm, hname⟩ := of_decide_eq_true hfound
      have hstanza : stanza.1 = (manager.realm, name) := Prod.ext hrealm hname
      have hmem : (manager.realm, name) ∈ store.passwords.map Prod.fst := by
        rw [← hstanza]
        refine List.mem_map_of_mem ?_
        exact (mem_inRealm_iff.mp ((manager.perm _).mem_iff.mp (List.mem_of_find?_eq_some hfind))).1
      refine (ends_requestChange _).mono fun r u ⟨_, hend⟩ ↦ ?_
      rw [hsame] at hend
      refine hend.imp_left fun hset ↦ ?_
      rw [hset, setKey, if_pos hmem, hstanza]
      refine List.map_congr_left fun p _ ↦ ?_
      split_ifs with hp
      · rw [hp]
      · rfl

end Requests

section Methods

variable {manager : CredentialManager} {store : UnreliableStore} {user name text : String}

theorem ends_updatePassword (h : manager.Tidy store.passwords) (huser : PlainName user) {index : ℕ}
    (hindex : 0 < index) :
    Ends (updatePassword manager (partialUser user index) text) store fun r t ↦
      manager.Touches (· = partialUser user index) store.passwords t.passwords ∧
        (r = .ok () →
          t.passwords.lookup (manager.realm, partialUser user index) = some text) := by
  have hsets {s t : UnreliableStore} {r : Except PyError Unit}
      (hs : manager.Touches (· = partialUser user index) store.passwords s.passwords)
      (ht : Sets manager (partialUser user index) text s.passwords r t.passwords) :
      manager.Touches (· = partialUser user index) store.passwords t.passwords ∧
        (r = .ok () →
          t.passwords.lookup (manager.realm, partialUser user index) = some text) := by
    rcases ht with hset | ⟨hsame, e, rfl⟩
    · rw [hset, lookup_setKey, if_pos rfl]
      exact ⟨hs.setKey huser hindex rfl text, fun _ ↦ rfl⟩
    · rw [hsame]
      exact ⟨hs, fun hok ↦ absurd hok error_ne_ok⟩
  refine ends_retry (fun s hs ↦ ?_) 3 (Touches.refl h)
  rw [tryUpdatePassword, ends_tryCatch]
  refine ends_createPassword.mono fun r t ht ↦ ?_
  cases r with
  | ok _ => exact hsets hs ht
  | error e =>
    dsimp only
    split_ifs with hconflict
    · exact ends_replacePassword.mono fun r u hu ↦ hsets (hsets hs ht).1 hu
    · exact hsets hs ht

theorem ends_storeSections (h : manager.Tidy store.passwords) (huser : PlainName user) {index : ℕ}
    (hindex : 0 < index) {texts : List String} :
    Ends (storeSections manager user index texts) store fun r t ↦
      manager.Touches (fun name ↦ ∃ i, index ≤ i ∧ name = partialUser user i)
        store.passwords t.passwords ∧
      (r = .ok () → ∀ j, (hj : j < texts.length) →
        t.passwords.lookup (manager.realm, partialUser user (index + j)) = some texts[j]) := by
  induction texts generalizing index store with
  | nil => exact ⟨Touches.refl h, fun _ j hj ↦ absurd hj (Nat.not_lt_zero j)⟩
  | cons text texts ih =>
    rw [storeSections, ends_bind]
    refine (ends_updatePassword h huser hindex).mono fun r t ⟨htouch, hfirst⟩ ↦ ?_
    have hmine : manager.Touches (fun name ↦ ∃ i, index ≤ i ∧ name = partialUser user i)
        store.passwords t.passwords := htouch.mono fun name hname ↦ ⟨index, le_rfl, hname⟩
    cases r with
    | error e => exact ⟨hmine, fun hok ↦ absurd hok error_ne_ok⟩
    | ok _ =>
      refine (ih htouch.tidy (Nat.succ_pos index)).mono fun r u ⟨hrest, hlater⟩ ↦ ?_
      refine ⟨hmine.trans (hrest.mono fun name ⟨i, hi, hname⟩ ↦
        ⟨i, (Nat.le_succ index).trans hi, hname⟩), fun hok j hj ↦ ?_⟩
      cases j with
      | zero =>
        rw [Nat.add_zero, hrest.kept, hfirst rfl, List.getElem_cons_zero]
        rintro - ⟨i, hi, heq⟩
        obtain ⟨-, rfl⟩ := partialUser_inj huser huser heq
        exact Nat.not_succ_le_self index hi
      | succ j =>
        have hnext := hlater hok j (Nat.lt_of_succ_lt_succ hj)
        rw [List.getElem_cons_succ, ← hnext, Nat.succ_eq_add_one, Nat.add_right_comm, Nat.add_assoc]

/-- **`set_password`.** What has been set when it returns is read, and nothing is done to others. -/
theorem ends_setPassword (h : manager.Tidy store.passwords) (huser : PlainName user)
    (password : String) : Ends (setPassword manager user password) store fun r t ↦
      manager.Touches (OfUser user) store.passwords t.passwords ∧
        (r = .ok () →
          manager.clearOf t.passwords user = some (untilEnd (sections password))) := by
  refine ends_retry (fun s hs ↦ ?_) 3 (Touches.refl h)
  refine (ends_storeSections hs.tidy huser Nat.one_pos).mono fun r t ⟨htouch, hstored⟩ ↦ ?_
  have hafter := hs.trans (htouch.mono fun name ⟨i, _, hname⟩ ↦ Or.inr ⟨i, hname⟩)
  exact ⟨hafter, fun hok ↦ hafter.tidy.clearOf_eq huser (hstored hok)
    (endMark_mem_sections password)⟩

theorem ends_deleteEach (h : manager.Tidy store.passwords) {stanzas : Passwords}
    (hstanzas : ∀ p ∈ stanzas, p.1.1 = manager.realm ∧ OfUser user p.1.2) :
    Ends (deleteEach stanzas) store fun r t ↦
      manager.Touches (OfUser user) store.passwords t.passwords ∧
        (∀ key ∈ t.passwords.map Prod.fst, key ∈ store.passwords.map Prod.fst) ∧
        (r = .ok () → ∀ key ∈ t.passwords.map Prod.fst, key ∉ stanzas.map Prod.fst) ∧
        r ≠ .error credentialNotExist := by
  induction stanzas generalizing store with
  | nil => exact ⟨Touches.refl h, fun _ ↦ id, fun _ _ _ ↦ List.not_mem_nil, error_ne_ok.symm⟩
  | cons p stanzas ih =>
    rw [List.forall_mem_cons] at hstanzas
    rw [deleteEach, ends_bind]
    refine (ends_requestChange _).mono fun r t ⟨hne, hend⟩ ↦ ?_
    have hsublist := (List.filter_sublist (l := store.passwords)
      (p := fun q ↦ decide (q.1 ≠ p.1))).map Prod.fst
    have htouch : manager.Touches (OfUser user) store.passwords t.passwords := by
      rcases hend with herase | ⟨hsame, -⟩
      · rw [herase]
        exact (Touches.refl h).erase hstanzas.1.1 hstanzas.1.2
      · rw [hsame]
        exact Touches.refl h
    have hsubset : ∀ key ∈ t.passwords.map Prod.fst, key ∈ store.passwords.map Prod.fst := by
      rcases hend with herase | ⟨hsame, -⟩
      · rw [herase]
        exact fun key hkey ↦ hsublist.subset hkey
      · rw [hsame]
        exact fun _ ↦ id
    cases r with
    | error e => exact ⟨htouch, hsubset, fun hok ↦ absurd hok error_ne_ok, hne⟩
    | ok _ =>
      rcases hend with herase | ⟨-, e, he⟩
      · refine (ih htouch.tidy hstanzas.2).mono fun r u ⟨hrest, hfewer, hgone, hne⟩ ↦ ?_
        refine ⟨htouch.trans hrest, fun key hkey ↦ hsubset key (hfewer key hkey), ?_, hne⟩
        intro hok key hkey hmem
        rcases List.mem_cons.mp hmem with rfl | hmem
        · have hin := hfewer _ hkey
          rw [herase] at hin
          obtain ⟨q, hq, hfst⟩ := List.mem_map.mp hin
          exact of_decide_eq_true (List.mem_filter.mp hq).2 hfst
        · exact hgone hok key hkey hmem
      · exact absurd he.symm error_ne_ok

/-- **`delete_password`.** When it returns, or says that there is nothing, nothing is there. -/
theorem ends_deletePassword (h : manager.Tidy store.passwords) (huser : PlainName user) :
    Ends (deletePassword manager user) store fun r t ↦
      manager.Touches (OfUser user) store.passwords t.passwords ∧
        (r = .ok () ∨ r = .error credentialNotExist → manager.clearOf t.passwords user = none) := by
  refine ends_retry (fun s hs ↦ ?_) 3 (Touches.refl h)
  rw [tryDeletePassword, ends_bind]
  refine ends_getRawPasswords.mono fun r t ⟨hsame, hne, hlisted⟩ ↦ ?_
  cases r with
  | error e =>
    have hother : e ≠ credentialNotExist := fun he ↦ hne (congrArg Except.error he)
    rw [hsame]
    exact ⟨hs, fun hend ↦ absurd hend (not_or_intro error_ne_ok (hother ∘ Except.error.inj))⟩
  | ok listed =>
    obtain rfl := hlisted listed rfl
    rw [← hsame] at hs
    dsimp only
    set deleted := (manager.order (manager.inRealm s.passwords)).filter fun p ↦
      isOfUser user p.username ∧ p.realm = manager.realm with hdeleted
    have hmem {p : StoragePassword} : p ∈ deleted ↔
        p ∈ t.passwords ∧ p.realm = manager.realm ∧ OfUser user p.username := by
      rw [hdeleted, ← hsame]
      exact hs.tidy.mem_deleted_iff huser
    rw [ends_bind]
    refine (ends_deleteEach hs.tidy fun p hp ↦ (hmem.mp hp).2).mono
      fun r u ⟨htouch, hfewer, hgone, hne⟩ ↦ ?_
    cases r with
    | error e =>
      exact ⟨hs.trans htouch, fun hend ↦ absurd hend (not_or_intro error_ne_ok hne)⟩
    | ok _ =>
      have hnone : manager.clearOf u.passwords user = none := by
        refine (htouch.tidy.clearOf_eq_none_iff huser).mpr fun name hname hin ↦ ?_
        obtain ⟨p, hp, hfst⟩ := List.mem_map.mp (hfewer _ hin)
        refine hgone rfl _ hin ?_
        rw [← hfst]
        refine List.mem_map_of_mem (hmem.mpr ⟨hp, congrArg Prod.fst hfst, ?_⟩)
        rwa [StoragePassword.username, hfst]
      dsimp only
      split_ifs
      · exact ⟨hs.trans htouch, fun _ ↦ hnone⟩
      · exact ⟨hs.trans htouch, fun _ ↦ hnone⟩

theorem readResult_injective : Function.Injective readResult := by
  rintro (_ | text) (_ | text') heq
  · rfl
  · exact absurd heq error_ne_ok
  · exact absurd heq.symm error_ne_ok
  · exact congrArg some (Except.ok.inj heq)

/-- **`get_password`.** What it answers is so. -/
theorem ends_getPassword (h : manager.Tidy store.passwords) (huser : PlainName user) :
    Ends (getPassword manager user) store fun r t ↦ t.passwords = store.passwords ∧
      ∀ answer, r = readResult answer → manager.clearOf store.passwords user = answer := by
  refine ends_retry (fun s hs ↦ ?_) 3 rfl
  rw [tryGetPassword, ends_bind]
  refine ends_getRawPasswords.mono fun r t ⟨hsame, hne, hlisted⟩ ↦ ?_
  cases r with
  | error e =>
    have hother : e ≠ credentialNotExist := fun he ↦ hne (congrArg Except.error he)
    refine ⟨hsame.trans hs, fun answer heq ↦ ?_⟩
    cases answer with
    | none => exact absurd (Except.error.inj heq) hother
    | some text => exact absurd heq error_ne_ok
  | ok listed =>
    obtain rfl := hlisted listed rfl
    have hfound := h.find?_clearPasswords huser
    rw [← hs] at hfound ⊢
    dsimp only
    rw [← hfound]
    cases (clearPasswords (manager.order (manager.inRealm s.passwords))).find?
        fun p ↦ p.username = user ∧ p.realm = manager.realm with
    | some stanza => exact ⟨hsame, fun answer heq ↦ readResult_injective heq⟩
    | none => exact ⟨hsame, fun answer heq ↦ readResult_injective heq⟩

end Methods

end Retried

/-! ## Runs -/

section Runs

variable {manager : CredentialManager} {store after : UnreliableStore} {user password : String}
  {known : String → Option String}

/-- An operation, with its retries. -/
def PasswordOp.runRetried (manager : CredentialManager) :
    (op : PasswordOp) → EStateM PyError UnreliableStore op.Value
  | .set user password => Retried.setPassword manager user password
  | .get user => Retried.getPassword manager user
  | .delete user => Retried.deletePassword manager user

/-- What the manager does while requests fail. -/
def retriedStep (manager : CredentialManager) :
    Steps UnreliableStore PasswordOp PasswordOp.Result :=
  fun store op result after ↦ Ends (op.runRetried manager) store fun r t ↦ result = r ∧ after = t

/-- The same with a map: of an operation that fails, it is only known which user it is about. -/
def looseStep : Steps (String → Option String) PasswordOp PasswordOp.Result
  | known, .set user password, result, after =>
    (∀ other ≠ user, after other = known other) ∧
      (result = .ok () → after user = some password)
  | known, .get user, result, after =>
    after = known ∧ ∀ answer, result = readResult answer → known user = answer
  | known, .delete user, result, after =>
    (∀ other ≠ user, after other = known other) ∧
      (result = .ok () ∨ result = .error credentialNotExist → after user = none)

theorem Reads.touches (h : manager.Reads store.passwords known) (huser : PlainName user)
    (htouch : manager.Touches (OfUser user) store.passwords after.passwords) :
    manager.Reads after.passwords
      (Function.update known user (manager.clearOf after.passwords user)) :=
  h.update htouch.tidy rfl fun _ hother hne ↦ htouch.clearOf_eq h.1 huser hother hne

theorem simulates_looseStep (manager : CredentialManager) :
    Simulates manager.retriedStep looseStep PasswordOp.Sound
      fun store known ↦ manager.Reads store.passwords known := by
  intro store known op result after hreads hsound hstep
  cases op with
  | set user password =>
    have hstep : Ends (Retried.setPassword manager user password) store fun r t ↦
        result = r ∧ after = t := hstep
    obtain ⟨_, _, ⟨htouch, hset⟩, rfl, rfl⟩ :=
      ((Retried.ends_setPassword hreads.1 hsound.1 password).and hstep).exists
    refine ⟨_, ⟨fun other hne ↦ Function.update_of_ne hne _ _, fun hok ↦ ?_⟩,
      hreads.touches hsound.1 htouch⟩
    rw [Function.update_self, hset hok, untilEnd_sections_eq_iff.mpr hsound.2]
  | get user =>
    have hstep : Ends (Retried.getPassword manager user) store fun r t ↦
        result = r ∧ after = t := hstep
    obtain ⟨_, _, ⟨hsame, hanswer⟩, rfl, rfl⟩ :=
      ((Retried.ends_getPassword hreads.1 hsound).and hstep).exists
    have hafter : manager.Reads after.passwords known := by
      rw [hsame]
      exact hreads
    refine ⟨known, ⟨rfl, fun answer heq ↦ ?_⟩, hafter⟩
    rw [hreads.2 user hsound, hanswer answer heq]
  | delete user =>
    have hstep : Ends (Retried.deletePassword manager user) store fun r t ↦
        result = r ∧ after = t := hstep
    obtain ⟨_, _, ⟨htouch, hdeleted⟩, rfl, rfl⟩ :=
      ((Retried.ends_deletePassword hreads.1 hsound).and hstep).exists
    refine ⟨_, ⟨fun other hne ↦ Function.update_of_ne hne _ _, fun hend ↦ ?_⟩,
      hreads.touches hsound htouch⟩
    rw [Function.update_self, hdeleted hend]

/-- **What returns is so.** Whichever requests fail, and whether or not they have taken effect, a
run of the manager is one of the map: what is answered is what the map has, an operation that
returns has been done to it, and one that raises has changed nothing but its own user. -/
theorem exists_unreliable_run (h : manager.Tidy store.passwords)
    {observed : List ((op : PasswordOp) × op.Result)}
    (hrun : ObservedRun manager.retriedStep store observed after)
    (hsound : ∀ x ∈ observed, x.1.Sound) :
    ∃ known, ObservedRun looseStep (manager.clearOf store.passwords) observed known ∧
      ∀ user, PlainName user → known user = manager.clearOf after.passwords user := by
  obtain ⟨known, hmap, -, hknown⟩ := (simulates_looseStep manager).run hrun hsound
    ⟨h, fun _ _ ↦ rfl⟩
  exact ⟨known, hmap, hknown⟩

/-- The first request times out after it has taken effect, and the next one reports a conflict. -/
def flakyStore : UnreliableStore where
  passwords := []
  coming := Stream'.cons ⟨some (.httpError 503), true⟩ (Stream'.const ⟨none, true⟩)
  honest n := by
    cases n with
    | zero => exact fun heq ↦ absurd (Option.some.inj heq) (by decide)
    | succ n => exact (Option.some_ne_none credentialNotExist).symm

theorem exists_unreliable_run_account : ∃ known,
    ObservedRun looseStep (someManager.clearOf []) [⟨.set "account" "secret", .ok ()⟩,
      ⟨.get "account", .ok "secret"⟩] known := by
  have hends : Ends (Retried.setPassword someManager "account" "secret") flakyStore fun r t ↦
      r = .ok () ∧ Ends (Retried.getPassword someManager "account") t fun r' _ ↦
        r' = .ok "secret" := by
    decide +kernel
  obtain ⟨_, t, hset, rfl, hends⟩ := hends.exists_end
  obtain ⟨_, u, hget, rfl⟩ := hends.exists_end
  have hrun : ObservedRun someManager.retriedStep flakyStore [⟨.set "account" "secret", .ok ()⟩,
      ⟨.get "account", .ok "secret"⟩] u := .cons hset (.cons hget (.nil u))
  obtain ⟨known, hknown, -⟩ := exists_unreliable_run (tidy_nil someManager) hrun <| by
    rw [List.forall_mem_cons, List.forall_mem_singleton]
    exact ⟨⟨by decide, by decide +kernel⟩, (by decide : PlainName "account")⟩
  exact ⟨known, hknown⟩

/-- The operation does not change the password of a user. -/
def PasswordOp.Spares (user : String) : PasswordOp → Prop
  | .set other _ => user ≠ other
  | .get _ => True
  | .delete other => user ≠ other

theorem looseStep_spares {op : PasswordOp} {result : op.Result}
    {known known' : String → Option String} (h : looseStep known op result known')
    (hspares : op.Spares user) : known' user = known user := by
  cases op with
  | set other password => exact h.1 user hspares
  | get other => exact congrFun h.1 user
  | delete other => exact h.1 user hspares

theorem looseRun_spares {observed : List ((op : PasswordOp) × op.Result)}
    {known known' : String → Option String} (h : ObservedRun looseStep known observed known')
    (hspares : ∀ x ∈ observed, x.1.Spares user) : known' user = known user := by
  induction h with
  | nil known => rfl
  | cons hstep _ ih =>
    rw [List.forall_mem_cons] at hspares
    exact (ih hspares.2).trans (looseStep_spares hstep hspares.1)

/-- **What has been set is read.** Once `set_password` has returned, nothing but its password is
answered for the user, until it is set or deleted again. -/
theorem answer_eq_of_unreliable_run {set read : UnreliableStore} {answer : Option String}
    (h : manager.Tidy store.passwords) (hsound : (PasswordOp.set user password).Sound)
    (hset : manager.retriedStep store (.set user password) (.ok ()) set)
    {between : List ((op : PasswordOp) × op.Result)}
    (hrun : ObservedRun manager.retriedStep set between read)
    (hbetween : ∀ x ∈ between, x.1.Sound ∧ x.1.Spares user)
    (hget : manager.retriedStep read (.get user) (readResult answer) after) :
    answer = some password := by
  have hsim := simulates_looseStep manager
  obtain ⟨known, ⟨-, hknown⟩, hreads⟩ := hsim store (manager.clearOf store.passwords)
    (.set user password) (.ok ()) set ⟨h, fun _ _ ↦ rfl⟩ hsound hset
  obtain ⟨known', hloose, hreads⟩ := hsim.run hrun (fun x hx ↦ (hbetween x hx).1) hreads
  obtain ⟨_, ⟨-, hanswer⟩, -⟩ := hsim read known' (.get user) (readResult answer) after hreads
    hsound.1 hget
  rw [← hanswer answer rfl, looseRun_spares hloose fun x hx ↦ (hbetween x hx).2, hknown rfl]

/-- In between, nothing is found to delete for another user. -/
theorem answer_eq_of_unreliable_run_account : ∃ set read after answer,
    someManager.retriedStep flakyStore (.set "account" "secret") (.ok ()) set ∧
      ObservedRun someManager.retriedStep set [⟨.delete "other", .error credentialNotExist⟩] read ∧
      someManager.retriedStep read (.get "account") (readResult answer) after ∧
      answer = some "secret" := by
  have hends : Ends (Retried.setPassword someManager "account" "secret") flakyStore fun r t ↦
      r = .ok () ∧ Ends (Retried.deletePassword someManager "other") t fun r' u ↦
        r' = .error credentialNotExist ∧
          Ends (Retried.getPassword someManager "account") u fun r'' _ ↦
            r'' = readResult (some "secret") := by
    decide +kernel
  obtain ⟨_, set, hset, rfl, hends⟩ := hends.exists_end
  obtain ⟨_, read, hdelete, rfl, hends⟩ := hends.exists_end
  obtain ⟨_, after, hget, rfl⟩ := hends.exists_end
  have haccount : PlainName "account" := by decide
  have hother : PlainName "other" := by decide
  have hrun : ObservedRun someManager.retriedStep set
      [⟨.delete "other", .error credentialNotExist⟩] read := .cons hdelete (.nil read)
  refine ⟨set, read, after, some "secret", hset, hrun, hget, ?_⟩
  refine answer_eq_of_unreliable_run (tidy_nil someManager) ⟨haccount, by decide +kernel⟩ hset hrun
    ?_ hget
  rw [List.forall_mem_singleton]
  exact ⟨hother, (by decide : "account" ≠ "other")⟩

end Runs

end CredentialManager

end MsSecurity
