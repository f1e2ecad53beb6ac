import MsSecurity.Secrets.AccountDetails
import MsSecurity.Secrets.PageChanges
import MsSecurity.Transition.Simulation

/-!
# Runs of the account page

Requests to the page, changes of the file by hand and reads of an account follow each other in any
order, and any request for a stanza on the way may fail.

* `exists_known_run`: the fields of the accounts, with their secrets, change as the operations say,
  and what is read are these fields.
* `hiding_of_listed`: once all accounts have been listed no secret stands in the file, until someone
  writes one there.
* `ends_fetchAccount_of_run`: a password is read until another one comes.
-/

namespace MsSecurity

open InputStanza (Fields merge get_merge)
open RestCredentials
open RestHandler

/-- An operation on the accounts. -/
inductive PageOp
  | list (id cred : Option String) (answers : RestAnswers)
  | create (name : String) (payload : Fields) (answers : RestAnswers)
  | edit (name : String) (payload : Fields) (answers : RestAnswers)
  | remove (listing : Except PyError Json) (name : String) (answers : RestAnswers)
  /-- Some fields of a stanza are written to the file by hand. -/
  | write (name : String) (body : Fields)
  | fetch (name : String) (answers : DetailsAnswers)

namespace PageOp

/-- What an operation returns. -/
abbrev Value : PageOp → Type
  | list _ _ _ => List Entry
  | create _ _ _ => List Entry
  | edit _ _ _ => List Entry
  | remove _ _ _ => List Entry
  | write _ _ => Unit
  | fetch _ _ => Account

/-- What an operation returns or raises. -/
abbrev Result (op : PageOp) : Type := Except PyError op.Value

def run (managers : AccountManagers) : (op : PageOp) → EStateM PyError ConfServer op.Value
  | list id cred answers => managers.handler.handleList answers id cred
  | create name payload answers => managers.handler.handleCreate answers name payload
  | edit name payload answers => managers.handler.handleEdit answers name payload
  | remove listing name answers => managers.handler.handleRemove answers listing name
  | write name body => modify (ConfServer.write name body)
  | fetch name answers => fetchAccount managers.details answers name

/-- Stars stand for a secret and nothing else. -/
def Unmasked (body : Fields) : Prop := ∀ key, key ≠ "password" → Dict.get body key ≠ some mask

/-- Accounts are created under plain names, and a secret that is written by hand is there. -/
def Sound : PageOp → Prop
  | list _ _ _ => True
  | create name payload _ => PlainName name ∧ Dict.get payload "name" = none ∧ Unmasked payload
  | edit _ payload _ => Unmasked payload
  | remove _ _ _ => True
  | write name body => PlainName name ∧ incoming (Dict.get body "password") ≠ none ∧ Unmasked body
  | fetch _ _ => True

/-- The operation is no change by hand. -/
def IsRequest : PageOp → Prop
  | write _ _ => False
  | _ => True

end PageOp

/-- What an operation on the accounts does. -/
def AccountManagers.step (managers : AccountManagers) : Steps ConfServer PageOp PageOp.Result :=
  fun s op result after ↦ Ends (op.run managers) s fun r t ↦ result = r ∧ after = t

/-! ## The fields of the accounts -/

/-- What a reading request answers. -/
def Listed (answers : RestAnswers) (decrypt : Bool) (known : Known) :
    Option String → Except PyError (List Entry) → Prop
  | some name, .ok entries => Shows "password" decrypt known name entries
  | some name, .error _ => answers.Reliable → known name = none
  | none, .ok entries => (∀ entry ∈ entries, ∃ fields, known entry.1 = some fields ∧
      Dict.get entry.2 = shownAs "password" decrypt fields) ∧
      ∀ name, known name ≠ none → name ∈ entries.map Prod.fst
  | none, .error _ => ¬answers.Reliable

/-- What an operation does to the fields of the accounts. -/
def knownStep (managers : AccountManagers) : Steps Known PageOp PageOp.Result
  | known, .list id cred answers, result, after =>
    Listed answers (cred.any isTrueStr) known (nonemptyStr? id) result ∧ after = known
  | known, .create name payload answers, result, after =>
    Attempted answers (managers.handler.CreateRefused known name payload) known
      (Function.update known name
        ((known name).map (withSecret "password" (Dict.get payload "password"))))
      (Function.update known name (some (Dict.get payload)))
      (Shows "password" false after name) result after
  | known, .edit name payload answers, result, after =>
    Attempted answers (managers.handler.EditRefused "password" known name payload) known
      (Function.update known name
        ((known name).map (withSecret "password" (incoming (Dict.get payload "password")))))
      (Function.update known name ((known name).map (edited "password" payload)))
      (Shows "password" false after name) result after
  | known, .remove listing name answers, result, after =>
    Attempted answers (AccountRemoval.checkUnused listing name ≠ .ok () ∨ known name = none)
      known known (Function.update known name none)
      (fun entries ↦ ∀ entry ∈ entries, Flayed "password" after entry) result after
  | known, .write name body, result, after =>
    result = .ok () ∧ after = Function.update known name (some
      (saved "password" (incoming (Dict.get body "password")) body (known name)))
  | known, .fetch name answers, result, after => after = known ∧
    match result with
    | .ok account => ∃ fields, known name = some fields ∧ account = accountOf fields
    | .error _ => answers.Reliable → known name = none

section Steps

variable {managers : AccountManagers} {s s' : ConfServer} {known : Known}

theorem ends_handleList (h : managers.handler.Represents "password" s known)
    {answers : RestAnswers} {id cred : Option String} :
    Ends (managers.handler.handleList answers id cred) s fun r s' ↦
      managers.handler.Reaches "password" s s' known ∧
        Listed answers (cred.any isTrueStr) known (nonemptyStr? id) r := by
  rw [handleList]
  cases nonemptyStr? id with
  | some name =>
    refine (h.ends_getEntity managers.oneSecret).mono ?_
    rintro r s' ⟨hs', hr⟩
    cases r with
    | ok entries => exact ⟨hs', hr.1⟩
    | error e => exact ⟨hs', fun hrel ↦ (hr hrel).1⟩
  | none =>
    refine (h.ends_all managers.oneSecret).mono ?_
    rintro r s' ⟨hs', hr⟩
    cases r with
    | ok entries => exact ⟨hs', hr.1, fun name hname ↦ (hr.2 name hname).1⟩
    | error e => exact ⟨hs', hr⟩

/-- A secret is written to the file by hand. -/
theorem RestHandler.Represents.write {handler : RestHandler} {f : String}
    (h : handler.Represents f s known) {name : String} (hname : PlainName name) {body : Fields}
    (hin : incoming (Dict.get body f) ≠ none)
    (hbody : ∀ key, key ≠ f → Dict.get body key ≠ some mask) :
    handler.Represents f (s.write name body) (Function.update known name
      (some (saved f (incoming (Dict.get body f)) body (known name)))) := by
  obtain ⟨secrets, hs, rfl⟩ := h
  obtain ⟨v, hv⟩ := Option.ne_none_iff_exists'.mp hin
  obtain ⟨hvalue, hmask⟩ := Option.filter_eq_some_iff.mp hv
  obtain ⟨hsome, hempty⟩ := nonemptyStr?_eq_some_iff.mp hvalue
  set stanza := merge body ((Dict.get s.conf name).getD []) with hstanza
  have hsecret : Dict.get stanza f = some v := by rw [hstanza, get_merge, hsome, Option.some_or]
  refine ⟨secrets, hs.write ⟨hname, v, hsecret, hempty, fun hstars ↦ ?_⟩ hbody, ?_⟩
  · exact absurd hstars (of_decide_eq_true hmask)
  · rw [view_write, ← hstanza]
    refine congrArg (Function.update _ name) (congrArg some (funext fun key ↦ ?_))
    rw [reveal, saved]
    by_cases hkey : key = f
    · rw [if_pos hkey, if_pos hkey, hsecret, ← hsome, hv, Option.some_or]
    · rw [if_neg hkey, if_neg hkey, hstanza, get_merge, view]
      cases Dict.get s.conf name with
      | none => rfl
      | some content =>
        rw [Option.getD_some, Option.map_some, Option.bind_some, reveal, if_neg hkey]

/-- Each operation does to the fields what it says. -/
theorem PageOp.ends_run (h : managers.handler.Represents "password" s known) {op : PageOp}
    (hsound : op.Sound) : Ends (op.run managers) s fun r s' ↦ ∃ after,
      knownStep managers known op r after ∧ managers.handler.Represents "password" s' after ∧
        (op.IsRequest → Written "password" s s') := by
  cases op with
  | list id cred answers =>
    exact (ends_handleList h).mono fun r s' hr ↦
      ⟨known, ⟨hr.2, rfl⟩, hr.1.represents, fun _ ↦ hr.1.written⟩
  | create name payload answers =>
    refine (h.ends_create managers.oneSecret hsound.1 hsound.2.1 hsound.2.2).mono ?_
    rintro r s' ⟨after, hs', hr⟩
    exact ⟨after, hr, hs'.represents, fun _ ↦ hs'.written⟩
  | edit name payload answers =>
    refine (h.ends_update managers.oneSecret hsound).mono ?_
    rintro r s' ⟨after, hs', hr⟩
    exact ⟨after, hr, hs'.represents, fun _ ↦ hs'.written⟩
  | remove listing name answers =>
    refine (h.ends_handleRemove managers.oneSecret).mono ?_
    rintro r s' ⟨after, hs', hr⟩
    exact ⟨after, hr, hs'.represents, fun _ ↦ hs'.written⟩
  | write name body =>
    exact ⟨_, ⟨rfl, rfl⟩, h.write hsound.1 hsound.2.1 hsound.2.2, False.elim⟩
  | fetch name answers =>
    refine (h.ends_fetchAccount managers.realm_eq).mono ?_
    rintro r s' ⟨rfl, hr⟩
    cases r with
    | ok account => exact ⟨known, ⟨rfl, hr⟩, h, fun _ ↦ written_self "password" s'⟩
    | error e => exact ⟨known, ⟨rfl, hr⟩, h, fun _ ↦ written_self "password" s'⟩

theorem PageOp.exists_knownStep (h : managers.handler.Represents "password" s known) {op : PageOp}
    (hsound : op.Sound) {result : op.Result} (hstep : managers.step s op result s') :
    ∃ after, knownStep managers known op result after ∧
      managers.handler.Represents "password" s' after ∧
        (op.IsRequest → Written "password" s s') := by
  obtain ⟨_, _, hr, rfl, rfl⟩ := ((PageOp.ends_run h hsound).and hstep).exists
  exact hr

theorem PageOp.exists_step (h : managers.handler.Represents "password" s known) (op : PageOp)
    (hsound : op.Sound) : ∃ result s' after, managers.step s op result s' ∧
      knownStep managers known op result after ∧
        managers.handler.Represents "password" s' after := by
  obtain ⟨result, s', hstep, after, hknown, hafter, -⟩ := (PageOp.ends_run h hsound).exists_end
  exact ⟨result, s', after, hstep, hknown, hafter⟩

end Steps

/-- Where nothing goes wrong, what is not refused is done. -/
theorem Attempted.eq_ok {answers : RestAnswers} {refused : Prop} {known half changed after : Known}
    {shown : List Entry → Prop} {result : Except PyError (List Entry)}
    (h : Attempted answers refused known half changed shown result after)
    (hrel : answers.Reliable) (haccepted : ¬refused) :
    ∃ entries, result = .ok entries ∧ after = changed := by
  cases result with
  | ok entries => exact ⟨entries, rfl, h.2.1⟩
  | error e => exact absurd (h.2 hrel).1 haccepted

/-- Where nothing goes wrong, an account that is there is returned. -/
theorem eq_ok_of_fetched {managers : AccountManagers} {known after : Known} {name : String}
    {answers : DetailsAnswers} {result : Except PyError Account}
    (h : knownStep managers known (.fetch name answers) result after) (hrel : answers.Reliable)
    {fields : String → Option String} (hfields : known name = some fields) :
    result = .ok (accountOf fields) := by
  obtain ⟨-, hr⟩ := h
  cases result with
  | ok account =>
    obtain ⟨fields', hfields', rfl⟩ := hr
    rw [Option.some.inj (hfields.symm.trans hfields')]
  | error e => exact absurd (hfields.symm.trans (hr hrel)) (Option.some_ne_none fields)

/-! ## An account to begin with -/

theorem RestCredentials.Holds.nil (credentials : RestCredentials) (f : String) :
    credentials.Holds f [] fun _ ↦ none :=
  ⟨CredentialManager.tidy_nil _, fun _ ↦ rfl, (Option.some_ne_none _).symm⟩

theorem RestHandler.represents_nil (handler : RestHandler) (f : String) :
    handler.Represents f ⟨[], []⟩ fun _ ↦ none :=
  ⟨fun _ ↦ none, ⟨.nil _ f, List.nodup_nil, List.forall_mem_nil _,
    List.forall_mem_nil _⟩, rfl⟩

theorem plain_detailsRealm : ∀ c ∈ detailsRealm.toList, c ≠ '`' ∧ c ≠ '\n' := by
  have hall : (detailsRealm.toList.all fun c ↦ c != '`' && c != '\n') = true := by decide +kernel
  intro c hc
  have hplain := List.all_eq_true.mp hall c hc
  rw [Bool.and_eq_true, bne_iff_ne, bne_iff_ne] at hplain
  exact hplain

def someAccounts : AccountManagers where
  page := ⟨detailsRealm, plain_detailsRealm, List.reverse, List.reverse_perm⟩
  details := ⟨detailsRealm, plain_detailsRealm, id, List.Perm.refl⟩
  page_realm := restRealm_account.symm
  details_realm := rfl

def someAnswers : RestAnswers :=
  ⟨none, none, fun _ ↦ ⟨none, true⟩, ⟨none, true⟩, ⟨none, true⟩, none, fun _ ↦ true, fun _ ↦ ""⟩

def someDetails : DetailsAnswers := ⟨none, fun _ ↦ none⟩

theorem reliable_someAnswers : someAnswers.Reliable := ⟨rfl, rfl, fun _ ↦ rfl, rfl, rfl, rfl⟩

def somePayload : Fields := [("username", "id"), ("password", "secret"), ("tenant_id", "tenant")]

theorem unmasked_of_notMem {body : Fields} (h : mask ∉ body.map Prod.snd) :
    PageOp.Unmasked body := fun _ _ hmask ↦ h (List.mem_map_of_mem (mem_of_lookup hmask))

theorem unmasked_somePayload : PageOp.Unmasked somePayload := unmasked_of_notMem (by decide)

theorem incoming_somePayload : incoming (Dict.get somePayload "password") = some "secret" := by
  decide

/-- The file in which an account has been written by hand. -/
def someServer : ConfServer := ConfServer.write "account" somePayload ⟨[], []⟩

/-- The fields of the account. -/
def someKnown : Known := Function.update (fun _ ↦ none) "account"
  (some (saved "password" (some "secret") somePayload none))

theorem represents_someServer :
    someAccounts.handler.Represents "password" someServer someKnown := by
  have hin : incoming (Dict.get somePayload "password") ≠ none := by
    rw [incoming_somePayload]
    exact Option.some_ne_none _
  have haccount : PlainName "account" := by decide
  have h := (represents_nil someAccounts.handler "password").write haccount hin
    unmasked_somePayload
  rwa [incoming_somePayload] at h

/-! ## Runs -/

section Runs

variable {managers : AccountManagers} {s after : ConfServer} {known : Known}
  {observed : List ((op : PageOp) × op.Result)}

theorem simulates_knownStep (managers : AccountManagers) :
    Simulates managers.step (knownStep managers) PageOp.Sound
      (managers.handler.Represents "password") := by
  intro s known op result after h hsound hstep
  obtain ⟨known', hknown, hafter, -⟩ := PageOp.exists_knownStep h hsound hstep
  exact ⟨known', hknown, hafter⟩

/-- **The accounts are their fields.** Every run of the operations is one on the fields, with the
same answers. -/
theorem exists_known_run (h : managers.handler.Represents "password" s known)
    (hrun : ObservedRun managers.step s observed after) (hsound : ∀ x ∈ observed, x.1.Sound) :
    ∃ known', ObservedRun (knownStep managers) known observed known' ∧
      managers.handler.Represents "password" after known' :=
  (simulates_knownStep managers).run hrun hsound h

theorem exists_known_run_account : ∃ entries after known',
    ObservedRun someAccounts.step ⟨[], []⟩
      [⟨.create "account" somePayload someAnswers, .ok entries⟩,
        ⟨.fetch "account" someDetails, .ok (accountOf (Dict.get somePayload))⟩] after ∧
    ObservedRun (knownStep someAccounts) (fun _ ↦ none)
      [⟨.create "account" somePayload someAnswers, .ok entries⟩,
        ⟨.fetch "account" someDetails, .ok (accountOf (Dict.get somePayload))⟩] known' := by
  have hempty := represents_nil someAccounts.handler "password"
  have hsound : (PageOp.create "account" somePayload someAnswers).Sound :=
    ⟨by decide, by decide, unmasked_somePayload⟩
  have haccepted : ¬someAccounts.handler.CreateRefused (fun _ ↦ none) "account" somePayload := by
    rintro (hname | hknown | hvalid)
    · exact hname (by decide)
    · exact hknown rfl
    · exact hvalid rfl
  obtain ⟨result, s, _, hcreate, hcreated, hs⟩ := PageOp.exists_step hempty _ hsound
  obtain ⟨entries, rfl, rfl⟩ := Attempted.eq_ok hcreated reliable_someAnswers haccepted
  obtain ⟨result, after, _, hfetch, hfetched, -⟩ :=
    PageOp.exists_step hs (.fetch "account" someDetails) trivial
  obtain rfl := eq_ok_of_fetched hfetched ⟨rfl, fun _ ↦ rfl⟩ (Function.update_self _ _ _)
  have hrest : ObservedRun someAccounts.step s
      [⟨.fetch "account" someDetails, .ok (accountOf (Dict.get somePayload))⟩] after :=
    .cons hfetch (.nil after)
  have hrun := ObservedRun.cons hcreate hrest
  obtain ⟨known', hknown, -⟩ := exists_known_run hempty hrun <| by
    rw [List.forall_mem_cons, List.forall_mem_singleton]
    exact ⟨hsound, trivial⟩
  exact ⟨entries, after, known', hrun, hknown⟩

/-- In all stanzas of the file stars stand in the place of the secret. -/
def Hiding (f : String) (s : ConfServer) : Prop :=
  ∀ ⦃name content⦄, Dict.get s.conf name = some content → Dict.get content f = some mask

theorem RestHandler.Written.hiding {f : String} {s s' : ConfServer} (h : Written f s s')
    (hs : Hiding f s) : Hiding f s' := by
  intro name content hcontent
  rcases h hcontent with hcontent | hstars
  · exact hs hcontent
  · exact hstars

theorem RestHandler.Represents.hiding {handler : RestHandler} {f : String}
    (h : handler.Represents f s known) (hhidden : ∀ name, known name ≠ none → Hidden f s name) :
    Hiding f s := by
  obtain ⟨secrets, hs, rfl⟩ := h
  intro name content hcontent
  have hname : view f s secrets name ≠ none := by
    rw [view, hcontent]
    exact Option.some_ne_none _
  obtain ⟨content', hcontent', hstars⟩ := hhidden name hname
  rwa [← Option.some.inj (hcontent'.symm.trans hcontent)]

theorem simulates_hiding (managers : AccountManagers) :
    Simulates managers.step (knownStep managers) (fun op ↦ op.Sound ∧ op.IsRequest)
      (fun s known ↦ managers.handler.Represents "password" s known ∧ Hiding "password" s) := by
  intro s known op result after h hok hstep
  obtain ⟨known', hknown, hafter, hwritten⟩ := PageOp.exists_knownStep h.1 hok.1 hstep
  exact ⟨known', hknown, hafter, Written.hiding (hwritten hok.2) h.2⟩

/-- **No secret stands in the file** once all accounts have been listed, as long as nobody writes
one there. -/
theorem hiding_of_listed (h : managers.handler.Represents "password" s known)
    {cred : Option String} {answers : RestAnswers} {entries : List Entry} {listed : ConfServer}
    (hlist : managers.step s (.list none cred answers) (.ok entries) listed)
    (hrun : ObservedRun managers.step listed observed after)
    (hok : ∀ x ∈ observed, x.1.Sound ∧ x.1.IsRequest) : Hiding "password" after := by
  have hlist : Ends (managers.handler.all answers (cred.any isTrueStr)) s fun r t ↦
      .ok entries = r ∧ listed = t := hlist
  obtain ⟨_, _, ⟨hlisted, hr⟩, rfl, rfl⟩ := ((h.ends_all managers.oneSecret).and hlist).exists
  have hhiding : Hiding "password" listed :=
    hlisted.represents.hiding fun name hname ↦ (hr.2 name hname).2
  obtain ⟨-, -, -, hafter⟩ :=
    (simulates_hiding managers).run hrun hok ⟨hlisted.represents, hhiding⟩
  exact hafter

theorem hiding_of_listed_account : ¬Hiding "password" someServer ∧ ∃ entries listed result after,
    someAccounts.step someServer (.list none none someAnswers) (.ok entries) listed ∧
    ObservedRun someAccounts.step listed
      [⟨.edit "account" somePayload someAnswers, result⟩] after ∧ Hiding "password" after := by
  refine ⟨fun hhiding ↦ ?_, ?_⟩
  · have hcontent : Dict.get someServer.conf "account" = some somePayload := by decide
    exact absurd (hhiding hcontent) (by decide)
  · obtain ⟨result, listed, _, hlist, ⟨hlisted, rfl⟩, hs⟩ :=
      PageOp.exists_step represents_someServer (.list none none someAnswers) trivial
    have hsound : (PageOp.edit "account" somePayload someAnswers).Sound := unmasked_somePayload
    obtain ⟨result', after, -, hedit, -, -⟩ := PageOp.exists_step hs _ hsound
    cases result with
    | error e => exact absurd reliable_someAnswers hlisted
    | ok entries =>
      have hrun := ObservedRun.cons hedit (.nil after)
      refine ⟨entries, listed, result', after, hlist, hrun, ?_⟩
      refine hiding_of_listed represents_someServer hlist hrun ?_
      rw [List.forall_mem_singleton]
      exact ⟨hsound, trivial⟩

/-! ## A password that is read -/

/-- The operation does not change the password of the account. -/
def PageOp.Keeps (name : String) : PageOp → Prop
  | list _ _ _ => True
  | create other _ _ => other ≠ name
  | edit other payload _ => other = name → incoming (Dict.get payload "password") = none
  | remove _ other _ => other ≠ name
  | write other _ => other ≠ name
  | fetch _ _ => True

theorem Attempted.cases {answers : RestAnswers} {refused : Prop} {half changed after : Known}
    {shown : List Entry → Prop} {result : Except PyError (List Entry)}
    (h : Attempted answers refused known half changed shown result after) :
    after = known ∨ after = half ∨ after = changed := by
  cases result with
  | ok entries => exact Or.inr (Or.inr h.2.1)
  | error e => exact h.1.imp_right (Or.imp_right And.right)

/-- The account is there with the password. -/
def HasPassword (name : String) (password : Option String) (known : Known) : Prop :=
  ∃ fields, known name = some fields ∧ fields "password" = password

theorem HasPassword.update_of_ne {name other : String} {password : Option String}
    (h : HasPassword name password known) (hne : other ≠ name)
    (fields : Option (String → Option String)) :
    HasPassword name password (Function.update known other fields) := by
  rwa [HasPassword, Function.update_of_ne hne.symm]

theorem HasPassword.knownStep {name : String} {password : Option String} {known' : Known}
    (h : HasPassword name password known) {op : PageOp} (hkeeps : op.Keeps name)
    {result : op.Result} (hstep : knownStep managers known op result known') :
    HasPassword name password known' := by
  cases op with
  | list id cred answers =>
    obtain ⟨-, rfl⟩ := hstep
    exact h
  | create other payload answers =>
    obtain rfl | rfl | rfl := Attempted.cases hstep
    · exact h
    · exact h.update_of_ne hkeeps _
    · exact h.update_of_ne hkeeps _
  | edit other payload answers =>
    by_cases hother : other = name
    · subst hother
      have hnone := hkeeps rfl
      obtain ⟨fields, hfields, hpassword⟩ := h
      obtain rfl | rfl | rfl := Attempted.cases hstep
      · exact ⟨fields, hfields, hpassword⟩
      · refine ⟨_, by rw [Function.update_self, hfields, Option.map_some], ?_⟩
        rw [withSecret, hnone, Option.none_or, Function.update_self, hpassword]
      · refine ⟨_, by rw [Function.update_self, hfields, Option.map_some], ?_⟩
        rw [edited, saved, if_pos rfl, hnone, Option.none_or, hpassword]
    · obtain rfl | rfl | rfl := Attempted.cases hstep
      · exact h
      · exact h.update_of_ne hother _
      · exact h.update_of_ne hother _
  | remove listing other answers =>
    obtain rfl | rfl | rfl := Attempted.cases hstep
    · exact h
    · exact h
    · exact h.update_of_ne hkeeps _
  | write other body =>
    obtain ⟨-, rfl⟩ := hstep
    exact h.update_of_ne hkeeps _
  | fetch other answers =>
    obtain ⟨rfl, -⟩ := hstep
    exact h

theorem HasPassword.run {name : String} {password : Option String} {known' : Known}
    (h : HasPassword name password known)
    (hrun : ObservedRun (MsSecurity.knownStep managers) known observed known')
    (hkeeps : ∀ x ∈ observed, x.1.Keeps name) : HasPassword name password known' := by
  induction hrun with
  | nil known => exact h
  | cons hstep _ ih =>
    rw [List.forall_mem_cons] at hkeeps
    exact ih (h.knownStep hkeeps.1 hstep) hkeeps.2

/-- **A password stays** until an operation on its account brings another one, and it is what
`get_account_details` returns. -/
theorem ends_fetchAccount_of_run (h : managers.handler.Represents "password" s known)
    (hrun : ObservedRun managers.step s observed after) (hsound : ∀ x ∈ observed, x.1.Sound)
    {name : String} {password : Option String} (hpassword : HasPassword name password known)
    (hkeeps : ∀ x ∈ observed, x.1.Keeps name) {answers : DetailsAnswers}
    (hrel : answers.Reliable) :
    Ends (fetchAccount managers.details answers name) after fun r _ ↦
      ∃ account, .ok account = r ∧ account.password = password := by
  obtain ⟨known', hknown, hafter⟩ := exists_known_run h hrun hsound
  obtain ⟨fields, hfields, rfl⟩ := hpassword.run hknown hkeeps
  refine (hafter.ends_fetchAccount managers.realm_eq).mono ?_
  rintro r s' ⟨rfl, hr⟩
  cases r with
  | ok account =>
    obtain ⟨fields', hfields', rfl⟩ := hr
    obtain rfl := Option.some.inj (hfields.symm.trans hfields')
    exact ⟨_, rfl, rfl⟩
  | error e => exact absurd (hfields.symm.trans (hr hrel)) (Option.some_ne_none fields)

theorem ends_fetchAccount_of_run_account : ∃ entries result after,
    ObservedRun someAccounts.step someServer [⟨.list none none someAnswers, entries⟩,
      ⟨.edit "account" [("password", mask), ("tenant_id", "other")] someAnswers, result⟩] after ∧
    Ends (fetchAccount someAccounts.details someDetails "account") after fun r _ ↦
      ∃ account, .ok account = r ∧ account.password = some "secret" := by
  have hsound : (PageOp.edit "account" [("password", mask), ("tenant_id", "other")]
      someAnswers).Sound := by
    intro key hkey
    rw [Dict.get, List.lookup_cons, beq_false_of_ne hkey]
    exact unmasked_of_notMem (by decide) key hkey
  obtain ⟨entries, listed, _, hlist, -, hs⟩ :=
    PageOp.exists_step represents_someServer (.list none none someAnswers) trivial
  obtain ⟨result, after, -, hedit, -, -⟩ := PageOp.exists_step hs _ hsound
  have hrun := ObservedRun.cons hlist (.cons hedit (.nil after))
  refine ⟨entries, result, after, hrun, ?_⟩
  have hpassword : HasPassword "account" (some "secret") someKnown :=
    ⟨_, Function.update_self _ _ _, rfl⟩
  refine ends_fetchAccount_of_run represents_someServer hrun ?_ hpassword ?_ ⟨rfl, fun _ ↦ rfl⟩
  · rw [List.forall_mem_cons, List.forall_mem_singleton]
    exact ⟨trivial, hsound⟩
  · rw [List.forall_mem_cons, List.forall_mem_singleton]
    exact ⟨trivial, fun _ ↦ by decide⟩

end Runs

end MsSecurity
