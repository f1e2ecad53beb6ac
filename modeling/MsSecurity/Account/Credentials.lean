import MsSecurity.Account.AccessToken

/-!
# The credentials of an alert action

`get_credentials` looks for an account in two nested loops, which note what they find in variables
that start as the empty string; a stanza is taken when neither the client id nor the client secret
is empty. A setting that is missing or has no value is `None`, though, and `None` is not the empty
string: a stanza without a password is taken like a complete one.

## Main results

* `Credentials.getCredentials_eq`: the credentials are those of the first stanza that passes for
  complete.
* `Credentials.meets_iff`: they are those of the first complete stanza exactly when the first one
  that passes for it is complete.
-/

namespace MsSecurity

namespace Credentials

/-! ## Stanzas -/

/-- A stanza of the account configuration. A setting without a value is `None`. -/
structure Stanza where
  name : String
  content : Dict (Option String)
  nodup : (content.map Prod.fst).Nodup

/-- The stanzas, in their order. -/
structure Stanzas where
  list : List Stanza
  nodup : (list.map Stanza.name).Nodup

/-- `content.get(key)`. -/
def Stanza.get (stanza : Stanza) (key : String) : Option String :=
  (Dict.get stanza.content key).join

/-- The settings that have a value. -/
def Stanza.settings (stanza : Stanza) : Dict String :=
  stanza.content.filterMap fun (key, v) ↦ v.map (key, ·)

/-- The configuration as `get_account_details` reads it. -/
def Stanzas.accountConf (conf : Stanzas) : AccountConf :=
  conf.list.map fun stanza ↦ (stanza.name, stanza.settings)

theorem get_filterMap_of_not_mem {content : Dict (Option String)} {key : String}
    (h : key ∉ content.map Prod.fst) :
    Dict.get (content.filterMap fun (key, v) ↦ v.map (key, ·)) key = none := by
  rw [Dict.get, List.lookup_eq_none_iff]
  rintro ⟨key', value⟩ hmem
  obtain ⟨⟨key'', v⟩, hmem', heq⟩ := List.mem_filterMap.mp hmem
  obtain ⟨value', rfl, hvalue⟩ := Option.map_eq_some_iff.mp heq
  obtain ⟨rfl, rfl⟩ := Prod.mk.inj hvalue
  have hne : key ≠ key'' := by
    rintro rfl
    exact h (List.mem_map_of_mem hmem')
  exact bne_iff_ne.mpr hne

theorem Stanza.get_settings (stanza : Stanza) (key : String) :
    Dict.get stanza.settings key = stanza.get key := by
  obtain ⟨name, content, hnodup⟩ := stanza
  rw [settings, get]
  dsimp only
  induction content with
  | nil => rfl
  | cons p content ih =>
    obtain ⟨key', v⟩ := p
    rw [List.map_cons, List.nodup_cons] at hnodup
    have hrest := ih hnodup.2
    by_cases hkey : key = key'
    · subst hkey
      cases v with
      | none =>
        rw [List.filterMap_cons]
        exact (get_filterMap_of_not_mem hnodup.1).trans (by simp [Dict.get])
      | some value => simp [Dict.get]
    · rw [Dict.get] at hrest ⊢
      cases v with
      | none => simpa [Dict.get, List.lookup_cons, beq_false_of_ne hkey] using hrest
      | some value => simpa [Dict.get, List.lookup_cons, beq_false_of_ne hkey] using hrest

theorem Stanzas.get_accountConf (conf : Stanzas) {stanza : Stanza} (h : stanza ∈ conf.list) :
    Dict.get conf.accountConf stanza.name = some stanza.settings := by
  obtain ⟨list, hnodup⟩ := conf
  rw [accountConf]
  dsimp only at h ⊢
  induction list with
  | nil => cases h
  | cons stanza' list ih =>
    rw [List.map_cons, List.nodup_cons] at hnodup
    rw [List.map_cons, Dict.get, List.lookup_cons]
    rcases List.mem_cons.mp h with rfl | hmem
    · rw [beq_self_eq_true]
    · have hne : stanza.name ≠ stanza'.name := fun hname ↦
        hnodup.1 (hname ▸ List.mem_map_of_mem hmem)
      rw [beq_false_of_ne hne]
      exact ih hnodup.2 hmem

/-! ## The loops -/

/-- What the loops have found; the tenant is used when an account is named. -/
structure Found where
  clientId : Option String
  clientSecret : Option String
  tenantId : Option String

def Found.initial : Found := ⟨some "", some "", some ""⟩

/-- `client_id != "" and client_secret != ""`. -/
def Found.isFound (found : Found) : Bool :=
  found.clientId ≠ some "" ∧ found.clientSecret ≠ some ""

/-- The inner loop, over the items of a stanza. -/
def readUsername (accountConf : AccountConf) (name : String) :
    List (String × Option String) → Found → Except PyError Found
  | [], found => .ok found
  | (key, _) :: items, found =>
    if key = "username" then
      match getAccountDetails (.ok accountConf) name with
      | .ok account => .ok ⟨account.username, account.password, account.tenantId⟩
      | .error e => if e.isException then readUsername accountConf name items found else .error e
    else readUsername accountConf name items found

/-- The outer loop, over the stanzas that are considered. -/
def search (considered : Stanza → Bool) (accountConf : AccountConf) :
    List Stanza → Found → Except PyError Found
  | [], found => .ok found
  | stanza :: stanzas, found =>
    if considered stanza then do
      let found ← readUsername accountConf stanza.name stanza.content found
      if found.isFound then return found else search considered accountConf stanzas found
    else search considered accountConf stanzas found

/-- What follows the loops. -/
def orExit (found : Found) : Except PyError Found :=
  if found.clientId = some "" ∨ found.clientSecret = some "" then .error (.systemExit 1)
  else .ok found

/-- `get_credentials_with_account_name`. -/
def getCredentialsWithAccountName (conf : Stanzas) (account accountName : Option String) :
    Except PyError (Option String × Option String × Option String) := do
  let globalAccountName := if truthyStr account then account else accountName
  let found ← search (fun stanza ↦ some stanza.name = globalAccountName) conf.accountConf conf.list
    .initial
  let found ← orExit found
  return (found.clientId, found.clientSecret, found.tenantId)

/-- `get_credentials_without_account_name`. -/
def getCredentialsWithoutAccountName (conf : Stanzas) :
    Except PyError (Option String × Option String) := do
  let found ← search (fun _ ↦ true) conf.accountConf conf.list .initial
  let found ← orExit found
  return (found.clientId, found.clientSecret)

/-- `get_credentials`, for the parameters `account` and `account_name` of the action. -/
def getCredentials (conf : Stanzas) (account accountName : Option String) :
    Except PyError (Option String × Option String × Option String) :=
  if truthyStr (orStr account accountName) then
    getCredentialsWithAccountName conf account accountName
  else do
    let (clientId, clientSecret) ← getCredentialsWithoutAccountName conf
    return (clientId, clientSecret, none)

/-! ## What the loops find -/

/-- The stanza has a client id and a client secret. -/
def Stanza.isComplete (stanza : Stanza) : Bool :=
  truthyStr (stanza.get "username") && truthyStr (stanza.get "password")

/-- The stanza has the key of the client id, and neither value is the empty string. -/
def Stanza.passes (stanza : Stanza) : Bool :=
  decide ("username" ∈ stanza.content.map Prod.fst) &&
    (stanza.get "username" ≠ some "" ∧ stanza.get "password" ≠ some "")

theorem readUsername_eq {accountConf : AccountConf} {stanza : Stanza}
    (h : Dict.get accountConf stanza.name = some stanza.settings)
    (items : List (String × Option String)) (found : Found) :
    readUsername accountConf stanza.name items found =
      .ok (if "username" ∈ items.map Prod.fst then
        ⟨stanza.get "username", stanza.get "password", stanza.get "tenant_id"⟩ else found) := by
  have hdetails := getAccountDetails_eq_ok_iff.mpr ⟨accountConf, _, rfl, h, rfl⟩
  induction items with
  | nil => rfl
  | cons p items ih =>
    obtain ⟨key, v⟩ := p
    rw [readUsername]
    by_cases hkey : key = "username"
    · rw [if_pos hkey, hdetails, if_pos (by simp [hkey])]
      simp only [Stanza.get_settings]
    · rw [if_neg hkey, ih]
      refine congrArg Except.ok (if_congr ?_ rfl rfl)
      rw [List.map_cons, List.mem_cons, or_iff_right (Ne.symm hkey)]

/-- The search ends with the settings of a stanza, or has not found any. -/
def Finds (stanza? : Option Stanza) (result : Except PyError Found) : Prop :=
  match stanza? with
  | some stanza => ∃ tenantId,
    result = .ok ⟨stanza.get "username", stanza.get "password", tenantId⟩ ∧
      Found.isFound ⟨stanza.get "username", stanza.get "password", tenantId⟩ = true
  | none => ∃ found, result = .ok found ∧ found.isFound = false

/-- The search ends at the first stanza that passes. Until then, what it has noted is never both a
client id and a client secret. -/
theorem finds_search {considered : Stanza → Bool} {accountConf : AccountConf}
    {stanzas : List Stanza}
    (hconf : ∀ stanza ∈ stanzas, Dict.get accountConf stanza.name = some stanza.settings)
    {found : Found} (hfound : found.isFound = false) :
    Finds (stanzas.find? fun stanza ↦ considered stanza && stanza.passes)
      (search considered accountConf stanzas found) := by
  induction stanzas generalizing found with
  | nil => exact ⟨found, rfl, hfound⟩
  | cons stanza stanzas ih =>
    obtain ⟨hstanza, hstanzas⟩ := List.forall_mem_cons.mp hconf
    rw [List.find?_cons, search]
    cases hconsidered : considered stanza with
    | false => exact ih hstanzas hfound
    | true =>
      rw [if_pos rfl, readUsername_eq hstanza, Bool.true_and]
      by_cases hkey : "username" ∈ stanza.content.map Prod.fst
      · have hpasses : stanza.passes = Found.isFound
            ⟨stanza.get "username", stanza.get "password", stanza.get "tenant_id"⟩ := by
          rw [Stanza.passes, decide_eq_true hkey, Bool.true_and, Found.isFound]
        rw [if_pos hkey, hpasses]
        change Finds _ (if Found.isFound _ = true then _ else _)
        cases hread : Found.isFound
            ⟨stanza.get "username", stanza.get "password", stanza.get "tenant_id"⟩ with
        | true => exact ⟨stanza.get "tenant_id", rfl, hread⟩
        | false => exact ih hstanzas hread
      · have hpasses : stanza.passes = false := by
          rw [Stanza.passes, decide_eq_false hkey, Bool.false_and]
        rw [if_neg hkey, hpasses]
        change Finds _ (if found.isFound = true then _ else _)
        rw [if_neg (by rw [hfound]; exact Bool.false_ne_true)]
        exact ih hstanzas hfound

theorem orExit_eq (found : Found) :
    orExit found = if found.isFound then .ok found else .error (.systemExit 1) := by
  rw [orExit, Found.isFound]
  by_cases hid : found.clientId = some "" <;> by_cases hsecret : found.clientSecret = some "" <;>
    simp [hid, hsecret]

/-- The stanzas that the parameters of the action ask for. -/
def considered (account accountName : Option String) (stanza : Stanza) : Bool :=
  match nonemptyStr? (orStr account accountName) with
  | some name => stanza.name = name
  | none => true

/-- Credentials of the stanza are returned, or the process exits if there is none. -/
def Gives (stanza? : Option Stanza)
    (result : Except PyError (Option String × Option String × Option String)) : Prop :=
  match stanza? with
  | some stanza => ∃ tenantId,
    result = .ok (stanza.get "username", stanza.get "password", tenantId)
  | none => ∃ code, result = .error (.systemExit code)

theorem gives_of_finds {stanza? : Option Stanza} {result : Except PyError Found}
    (h : Finds stanza? result) (tenantId : Found → Option String) :
    Gives stanza? do
      let found ← result >>= orExit
      return (found.clientId, found.clientSecret, tenantId found) := by
  cases stanza? with
  | none =>
    obtain ⟨found, rfl, hfound⟩ := h
    refine ⟨1, ?_⟩
    change (orExit found >>= _) = _
    rw [orExit_eq, hfound]
    rfl
  | some stanza =>
    obtain ⟨tenant, rfl, hfound⟩ := h
    refine ⟨tenantId ⟨stanza.get "username", stanza.get "password", tenant⟩, ?_⟩
    change (orExit _ >>= _) = _
    rw [orExit_eq, hfound]
    rfl

/-- **The credentials that are used** are those of the first stanza that passes. -/
theorem gives_getCredentials (conf : Stanzas) (account accountName : Option String) :
    Gives (conf.list.find? fun stanza ↦ considered account accountName stanza && stanza.passes)
      (getCredentials conf account accountName) := by
  have hfinds (considered : Stanza → Bool) :
      Finds (conf.list.find? fun stanza ↦ considered stanza && stanza.passes)
        (search considered conf.accountConf conf.list .initial) :=
    finds_search (fun stanza hmem ↦ conf.get_accountConf hmem) rfl
  rw [getCredentials]
  cases hname : nonemptyStr? (orStr account accountName) with
  | none =>
    have hconsidered : considered account accountName = fun _ ↦ true := by
      funext stanza
      rw [considered, hname]
    rw [truthyStr_eq_isSome, hname, if_neg (by simp), hconsidered,
      getCredentialsWithoutAccountName]
    have hgives := gives_of_finds (hfinds fun _ ↦ true) fun _ ↦ none
    simp only [bind_assoc, pure_bind] at hgives ⊢
    exact hgives
  | some name =>
    have hconsidered : considered account accountName =
        fun stanza ↦ decide (some stanza.name = orStr account accountName) := by
      funext stanza
      rw [considered, hname, (nonemptyStr?_eq_some_iff.mp hname).1]
      simp
    rw [truthyStr_eq_isSome, hname, if_pos (by simp), hconsidered, getCredentialsWithAccountName]
    have hgives := gives_of_finds
      (hfinds fun stanza ↦ decide (some stanza.name = orStr account accountName)) Found.tenantId
    rw [bind_assoc] at hgives
    exact hgives

/-! ## What they should be -/

theorem Stanza.passes_of_isComplete {stanza : Stanza} (h : stanza.isComplete = true) :
    stanza.passes = true := by
  rw [isComplete, Bool.and_eq_true, truthyStr_eq_isSome, truthyStr_eq_isSome,
    Option.isSome_iff_exists, Option.isSome_iff_exists] at h
  obtain ⟨⟨username, husername⟩, password, hpassword⟩ := h
  rw [nonemptyStr?_eq_some_iff] at husername hpassword
  have hkey : "username" ∈ stanza.content.map Prod.fst := by
    by_contra hkey
    have hnone : Dict.get stanza.content "username" = none := by
      rw [Dict.get, List.lookup_eq_none_iff]
      exact fun p hp ↦ bne_iff_ne.mpr fun hp' ↦ hkey (hp' ▸ List.mem_map_of_mem hp)
    rw [get, hnone] at husername
    cases husername.1
  simp [passes, hkey, husername, hpassword]

theorem find?_eq_some_of_imp {α : Type} {p q : α → Bool} (h : ∀ a, q a = true → p a = true)
    {l : List α} {a : α} (hp : l.find? p = some a) (hq : q a = true) : l.find? q = some a := by
  obtain ⟨-, before, after, rfl, hbefore⟩ := List.find?_eq_some_iff_append.mp hp
  refine List.find?_eq_some_iff_append.mpr ⟨hq, before, after, rfl, fun b hb ↦ ?_⟩
  cases hqb : q b with
  | false => rfl
  | true =>
    have hpb := hbefore b hb
    rw [h b hqb] at hpb
    cases hpb

/-- The stanza that is asked for: of those that are considered, the first complete one. -/
def wanted (conf : Stanzas) (account accountName : Option String) : Option Stanza :=
  conf.list.find? fun stanza ↦ considered account accountName stanza && stanza.isComplete

/-- **When the credentials are those of the first complete stanza.** The first stanza that passes
for complete is complete. -/
theorem gives_wanted_iff (conf : Stanzas) (account accountName : Option String) :
    Gives (wanted conf account accountName) (getCredentials conf account accountName) ↔
      ∀ stanza, (conf.list.find? fun stanza ↦
          considered account accountName stanza && stanza.passes) = some stanza →
        stanza.isComplete = true := by
  have himp : ∀ stanza : Stanza, (considered account accountName stanza && stanza.isComplete) = true
      → (considered account accountName stanza && stanza.passes) = true := by
    intro stanza h
    rw [Bool.and_eq_true] at h ⊢
    exact h.imp_right Stanza.passes_of_isComplete
  have hgives := gives_getCredentials conf account accountName
  cases hfind : conf.list.find? fun stanza ↦
      considered account accountName stanza && stanza.passes with
  | none =>
    refine iff_of_true ?_ nofun
    have hnone : wanted conf account accountName = none := by
      rw [wanted, List.find?_eq_none]
      exact fun stanza hmem h ↦ List.find?_eq_none.mp hfind stanza hmem (himp stanza h)
    rw [hnone]
    rwa [hfind] at hgives
  | some stanza =>
    rw [hfind] at hgives
    constructor
    · rintro h _ ⟨⟩
      obtain ⟨tenantId, hresult⟩ := hgives
      cases hwanted : wanted conf account accountName with
      | none =>
        rw [hwanted] at h
        obtain ⟨code, hexit⟩ := h
        cases hresult.symm.trans hexit
      | some stanza' =>
        rw [hwanted] at h
        obtain ⟨tenantId', hresult'⟩ := h
        rw [wanted] at hwanted
        have hchosen := List.find?_some hwanted
        have hcomplete := (Bool.and_eq_true_iff.mp hchosen).2
        obtain ⟨husername, hrest⟩ := Prod.mk.inj (Except.ok.inj (hresult.symm.trans hresult'))
        obtain ⟨hpassword, -⟩ := Prod.mk.inj hrest
        rwa [Stanza.isComplete, husername, hpassword]
    · intro h
      have hcomplete := h stanza rfl
      have hwanted : wanted conf account accountName = some stanza := by
        refine find?_eq_some_of_imp himp hfind ?_
        have hchosen := List.find?_some hfind
        rw [(Bool.and_eq_true_iff.mp hchosen).1, hcomplete, Bool.true_and]
      rwa [hwanted]

/-- A stanza with the settings of an account. -/
def stanzaOf (name : String) (username password : Option String) : Stanza where
  name := name
  content := [("username", username), ("password", password)]
  nodup := by simp

/-- An account without a password before one with it. -/
def twoStanzas : Stanzas where
  list := [stanzaOf "first" (some "id1") none, stanzaOf "second" (some "id2") (some "secret")]
  nodup := by decide

/-- The credentials of the account without a password are returned, by its name and without one. -/
theorem not_gives_wanted :
    ¬Gives (wanted twoStanzas (some "first") none)
        (getCredentials twoStanzas (some "first") none) ∧
      ¬Gives (wanted twoStanzas none none) (getCredentials twoStanzas none none) := by
  constructor
  · rintro ⟨code, h⟩
    have hresult : getCredentials twoStanzas (some "first") none =
        .ok (some "id1", none, none) := by rfl
    cases hresult.symm.trans h
  · rintro ⟨tenantId, h⟩
    have hresult : getCredentials twoStanzas none none = .ok (some "id1", none, none) := by rfl
    obtain ⟨husername, -⟩ := Prod.mk.inj (Except.ok.inj (hresult.symm.trans h))
    exact absurd husername (by decide)

end Credentials

end MsSecurity
