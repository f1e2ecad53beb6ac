import MsSecurity.Account.AccessToken
import MsSecurity.Python.Effect
import MsSecurity.Python.Text

/-!
# Removing an account

Before an account is deleted, `handleRemove` lists the stored inputs and looks for one of the add-on
that refers to the account. The list comes from a REST endpoint that answers with its first page
only, and the one handler around the search formulates its error with the name of the input read
last.
-/

namespace MsSecurity

/-- `APP_NAME`. -/
def appName : String := "Splunk_TA_MS_Security"

namespace AccountRemoval

/-! ## The search -/

/-- The condition of the innermost `if`, with those around it: the entry is of the add-on and names
the account. -/
def usesAccount (account : String) (inputs : Json) : Except PyError Bool := do
  let fields ← asObject inputs
  let acl := (Dict.get fields "acl").getD (.str "")
  if ← acl.contains "app" then
    let acl ← asObject acl
    if ((Dict.get acl "app").getD (.str "")).eqStr appName then
      match Dict.get fields "content" with
      | some content =>
        if ← content.contains "azure_app_account" then
          return (← content.item "azure_app_account").eqStr account
        else return false
      | none => return false
    else return false
  else return false

/-- The refusal of a deletion. -/
def usedIn (name : String) : PyError :=
  .restError 409 ("Cannot delete the account as it is already been used in " ++ name ++ ".")

/-- `input_name`, which is unbound before the first name is read. -/
abbrev InputName := Option Json

/-- The loop over the entries. -/
def scanEntries (account : String) : List Json → EStateM PyError InputName Unit
  | [] => pure ()
  | inputs :: entries => do
    if ← liftExcept (inputs.contains "name") then
      let inputName ← liftExcept (inputs.item "name")
      set (some inputName)
      if ← liftExcept (usesAccount account inputs) then
        throw (usedIn (← liftExcept inputName.afterSlashes))
      else scanEntries account entries
    else scanEntries account entries

/-- The body of the `try`, given what the request and `json.loads` end in. -/
def scan (listing : Except PyError Json) (account : String) : EStateM PyError InputName Unit := do
  let res ← liftExcept listing
  if ← liftExcept (res.contains "entry") then
    let entries ← liftExcept (res.item "entry")
    scanEntries account (← liftExcept entries.iter)
  else return ()

/-- The exception of a variable that is not bound. -/
def unboundLocalError : PyError := .other "UnboundLocalError"

/-- The handler: whatever was raised, the account is said to be in use by the input read last. -/
def refusal (inputName : InputName) : PyError :=
  match inputName with
  | none => unboundLocalError
  | some name =>
    match name.afterSlashes with
    | .ok suffix => usedIn suffix
    | .error e => e

/-- The `try` and its handler. -/
def checkUnused (listing : Except PyError Json) (account : String) : Except PyError Unit :=
  match scan listing account none with
  | .ok () _ => .ok ()
  | .error e inputName => .error (if e.isException then refusal inputName else e)

/-- `handleRemove`. The deletion at its end does not fail. -/
def handleRemove (listing : Except PyError Json) (account : String) :
    EStateM PyError AccountConf Unit := do
  liftExcept (checkUnused listing account)
  modify fun conf ↦ Dict.del conf account

/-! ## The endpoint -/

/-- The number of entries on a page, unless a count is asked for. -/
def defaultCount : ℕ := 30

/-- What listing the stored inputs gives: a failure, or the first page. -/
def listInputs (fault : Option PyError) (stored : List Json) : Except PyError Json :=
  match fault with
  | some e => .error e
  | none => .ok (.obj [("entry", .arr (stored.take defaultCount))])

/-- A stored input of the add-on that refers to the account. -/
def Refers (account : String) (entry : Json) : Prop :=
  ∃ fields acl content, entry = .obj fields ∧ Dict.get fields "acl" = some (.obj acl) ∧
    Dict.get acl "app" = some (.str appName) ∧ Dict.get fields "content" = some (.obj content) ∧
    Dict.get content "azure_app_account" = some (.str account)

/-! ## What the search comes to -/

/-- The search goes on to the next entry: this one has no name, or can be read and does not refer to
the account. -/
def passes (account : String) (entry : Json) : Bool :=
  match entry.contains "name" with
  | .ok true =>
    match usesAccount account entry with
    | .ok used => !used
    | .error _ => false
  | .ok false => true
  | .error _ => false

/-- The name that is read of an entry. -/
def nameOf (entry : Json) : Option Json :=
  match entry with
  | .obj fields => Dict.get fields "name"
  | _ => none

/-- The entries the search comes to. -/
def seen (account : String) : List Json → List Json
  | [] => []
  | entry :: entries => entry :: if passes account entry then seen account entries else []

/-- The name read last. -/
def lastName (account : String) (entries : List Json) : Option Json :=
  ((seen account entries).filterMap nameOf).getLast?

/-- The nested conditions hold of an entry that refers to the account, and of no other. -/
theorem usesAccount_eq_ok_true_iff {account : String} {entry : Json} :
    usesAccount account entry = .ok true ↔ Refers account entry := by
  constructor
  · intro h
    obtain ⟨fields, hfields, h⟩ := bind_eq_ok_iff.mp h
    obtain ⟨hasApp, happ, h⟩ := bind_eq_ok_iff.mp h
    cases hasApp with
    | false => cases h
    | true =>
      obtain ⟨acl, hacl, h⟩ := bind_eq_ok_iff.mp h
      rw [asObject_eq_ok_iff] at hfields hacl
      have hacl : Dict.get fields "acl" = some (.obj acl) := by
        cases hget : Dict.get fields "acl" <;> simp_all
      split_ifs at h with hname
      · have hname : Dict.get acl "app" = some (.str appName) := by
          rw [Json.eqStr_eq_true_iff] at hname
          cases hget : Dict.get acl "app" with
          | none => rw [hget] at hname; exact absurd hname (by simp [appName])
          | some v => rw [hget] at hname; exact congrArg some hname
        split at h
        · next content hcontent =>
          obtain ⟨hasAccount, -, h⟩ := bind_eq_ok_iff.mp h
          split_ifs at h
          · obtain ⟨v, hv, heq⟩ := bind_eq_ok_iff.mp h
            obtain ⟨contentFields, rfl, hget⟩ := Json.item_eq_ok_iff.mp hv
            obtain rfl := Json.eqStr_eq_true_iff.mp (Except.ok.inj heq)
            exact ⟨fields, acl, contentFields, hfields, hacl, hname, hcontent, hget⟩
          · cases h
        · cases h
      · cases h
  · rintro ⟨fields, acl, content, rfl, hacl, happ, hcontent, haccount⟩
    rw [usesAccount]
    simp [asObject, hacl, happ, hcontent, haccount, Json.contains, Json.item, Dict.getItem,
      Json.eqStr, pure, Except.pure, bind, Except.bind]

theorem usesAccount_raisesException (account : String) (inputs : Json) :
    RaisesException (usesAccount account inputs) := by
  refine (asObject_raisesException inputs).bind fun fields ↦ ?_
  refine (Json.contains_raisesException _ _).bind fun hasApp ↦ ?_
  cases hasApp with
  | false => exact raisesException_ok _
  | true =>
    refine (asObject_raisesException _).bind fun acl ↦ ?_
    split_ifs
    · split
      · refine (Json.contains_raisesException _ _).bind fun hasAccount ↦ ?_
        split_ifs
        · exact (Json.item_raisesException _ _).bind fun _ ↦ raisesException_ok _
        · exact raisesException_ok _
      · exact raisesException_ok _
    · exact raisesException_ok _

theorem lastName_cons (account : String) (entry : Json) (entries : List Json) :
    lastName account (entry :: entries) =
      if passes account entry then (lastName account entries).or (nameOf entry)
      else nameOf entry := by
  rw [lastName, seen, lastName]
  cases hname : nameOf entry with
  | none =>
    rw [List.filterMap_cons_none hname, Option.or_none]
    split_ifs <;> rfl
  | some name =>
    rw [List.filterMap_cons_some hname, List.getLast?_cons]
    split_ifs with hp
    · cases ((seen account entries).filterMap nameOf).getLast? <;> rfl
    · rfl

/-- What the handler of the search and the check after it need to know of an end of the search. -/
def SearchEnds (account : String) (entries : List Json) (inputName : InputName)
    (r : Except PyError Unit) (inputName' : InputName) : Prop :=
  inputName' = (lastName account entries).or inputName ∧
    (r = .ok () ↔ ∀ entry ∈ entries, passes account entry = true) ∧ RaisesException r

variable {account : String} {entry : Json} {entries : List Json} {inputName : InputName}

theorem searchEnds_stop {e : PyError} (hp : passes account entry = false)
    (he : e.isException = true) :
    SearchEnds account (entry :: entries) inputName (.error e) ((nameOf entry).or inputName) := by
  refine ⟨?_, ?_, raisesException_error he⟩
  · rw [lastName_cons, hp, if_neg Bool.false_ne_true]
  · rw [List.forall_mem_cons, hp]
    exact iff_of_false error_ne_ok fun h ↦ Bool.false_ne_true h.1

theorem searchEnds_next {r : Except PyError Unit} {inputName' : InputName}
    (hp : passes account entry = true)
    (h : SearchEnds account entries ((nameOf entry).or inputName) r inputName') :
    SearchEnds account (entry :: entries) inputName r inputName' := by
  obtain ⟨hname, hr, he⟩ := h
  refine ⟨?_, ?_, he⟩
  · rw [hname, lastName_cons, if_pos hp, Option.or_assoc]
  · rw [hr, List.forall_mem_cons]
    exact (and_iff_right hp).symm

theorem nameOf_eq_none (h : entry.contains "name" ≠ .ok true) : nameOf entry = none := by
  cases entry with
  | obj fields =>
    rw [nameOf]
    cases hname : Dict.get fields "name" with
    | none => rfl
    | some name =>
      refine absurd ?_ h
      rw [Json.contains, hname]
      rfl
  | _ => rfl

theorem nameOf_of_item {name : Json} (h : entry.item "name" = .ok name) :
    nameOf entry = some name := by
  cases entry with
  | obj fields => exact Dict.getItem_eq_ok_iff.mp h
  | _ => cases h

theorem not_passes_of_item_error {e : PyError} (hname : entry.contains "name" = .ok true)
    (h : entry.item "name" = .error e) : passes account entry = false ∧ nameOf entry = none := by
  rw [passes, hname]
  cases entry with
  | obj fields =>
    have hget : (Dict.get fields "name").isSome = true := Except.ok.inj hname
    obtain ⟨name, hname⟩ := Option.isSome_iff_exists.mp hget
    rw [Json.item, Dict.getItem, hname] at h
    cases h
  | _ => exact ⟨rfl, rfl⟩

/-- **The search.** It ends normally when every entry lets it pass, and leaves the name it read
last. -/
theorem ends_scanEntries (account : String) (entries : List Json) (inputName : InputName) :
    Ends (scanEntries account entries) inputName (SearchEnds account entries inputName) := by
  induction entries generalizing inputName with
  | nil => exact ⟨rfl, iff_of_true rfl fun _ h ↦ absurd h List.not_mem_nil, raisesException_ok _⟩
  | cons entry entries ih =>
    rw [scanEntries, ends_bind, ends_liftExcept]
    cases hc : entry.contains "name" with
    | error e =>
      have hp : passes account entry = false := by rw [passes, hc]
      have hn : nameOf entry = none := nameOf_eq_none fun h ↦ error_ne_ok (hc.symm.trans h)
      have hstop : SearchEnds account (entry :: entries) inputName (.error e)
          ((nameOf entry).or inputName) :=
        searchEnds_stop hp (Json.contains_raisesException entry "name" e hc)
      rwa [hn] at hstop
    | ok hasName =>
      cases hasName with
      | false =>
        have hp : passes account entry = true := by rw [passes, hc]
        have hn : nameOf entry = none := nameOf_eq_none fun h ↦ by simp [hc] at h
        refine (ih inputName).mono fun r inputName' h ↦ searchEnds_next hp ?_
        rwa [hn]
      | true =>
        dsimp only
        rw [if_pos rfl, ends_bind, ends_liftExcept]
        cases hitem : entry.item "name" with
        | error e =>
          obtain ⟨hp, hn⟩ : passes account entry = false ∧ nameOf entry = none :=
            not_passes_of_item_error hc hitem
          have hstop : SearchEnds account (entry :: entries) inputName (.error e)
              ((nameOf entry).or inputName) :=
            searchEnds_stop hp (Json.item_raisesException entry "name" e hitem)
          rwa [hn] at hstop
        | ok name =>
          have hn := nameOf_of_item hitem
          dsimp only
          rw [ends_bind]
          change Ends _ (some name) _
          rw [ends_bind, ends_liftExcept]
          have hp : passes account entry = match usesAccount account entry with
              | .ok used => !used
              | .error _ => false := by rw [passes, hc]
          have hname : (nameOf entry).or inputName = some name := by rw [hn, Option.some_or]
          cases hused : usesAccount account entry with
          | error e =>
            rw [hused] at hp
            rw [← hname]
            exact searchEnds_stop hp (usesAccount_raisesException account entry e hused)
          | ok used =>
            rw [hused] at hp
            cases used with
            | false => exact (ih (some name)).mono fun r _ h ↦ searchEnds_next hp (hname ▸ h)
            | true =>
              dsimp only
              rw [if_pos rfl, ends_bind, ends_liftExcept, ← hname]
              cases hsuffix : name.afterSlashes with
              | error e =>
                exact searchEnds_stop hp (Json.afterSlashes_raisesException name e hsuffix)
              | ok suffix => exact searchEnds_stop hp rfl

/-! ## The removal -/

variable {fault : Option PyError} {stored : List Json} {conf : AccountConf}

/-- What `handleRemove` is to do: delete the account if the inputs can be listed and none of them
refers to it, and refuse with a `RestError` otherwise. -/
def Guarded (fault : Option PyError) (stored : List Json) (account : String) (conf : AccountConf) :
    Prop :=
  Ends (handleRemove (listInputs fault stored) account) conf fun r conf' ↦
    (fault = none ∧ (∀ entry ∈ stored, ¬Refers account entry) →
      r = .ok () ∧ conf' = Dict.del conf account) ∧
    (¬(fault = none ∧ ∀ entry ∈ stored, ¬Refers account entry) →
      (∃ status msg, r = .error (.restError status msg)) ∧ conf' = conf)

/-- The name can be put into the text of the refusal. -/
def Nameable (inputName : InputName) : Prop :=
  ∃ name suffix, inputName = some name ∧ name.afterSlashes = .ok suffix

theorem nameable_iff {inputName : InputName} :
    Nameable inputName ↔ ∃ status msg, refusal inputName = .restError status msg := by
  cases inputName with
  | none =>
    refine iff_of_false ?_ ?_
    · rintro ⟨name, suffix, ⟨⟩, -⟩
    · rintro ⟨status, msg, ⟨⟩⟩
  | some name =>
    rw [refusal]
    constructor
    · rintro ⟨name, suffix, ⟨⟩, hsuffix⟩
      rw [hsuffix]
      exact ⟨409, _, rfl⟩
    · rintro ⟨status, msg, h⟩
      cases hsuffix : name.afterSlashes with
      | ok suffix => exact ⟨name, suffix, rfl, hsuffix⟩
      | error e =>
        rw [hsuffix] at h
        obtain ⟨status, msg, rfl⟩ := h
        obtain h | h := Json.afterSlashes_eq_error hsuffix <;> cases h

theorem checkUnused_of_fault (e : PyError) :
    ∃ e', checkUnused (listInputs (some e) stored) account = .error e' ∧
      ∀ status msg, e' ≠ .restError status msg := by
  refine ⟨if e.isException then unboundLocalError else e, rfl, ?_⟩
  rintro status msg h
  split_ifs at h with he
  · cases h
  · rw [h] at he
    exact he rfl

theorem checkUnused_listInputs (stored : List Json) (account : String) :
    checkUnused (listInputs none stored) account =
      if ∀ entry ∈ stored.take defaultCount, passes account entry = true then .ok ()
      else .error (refusal (lastName account (stored.take defaultCount))) := by
  have hscan : scan (listInputs none stored) account none =
      scanEntries account (stored.take defaultCount) none := rfl
  have hends := ends_scanEntries account (stored.take defaultCount) none
  rw [checkUnused, hscan]
  cases hrun : scanEntries account (stored.take defaultCount) none with
  | ok _ inputName =>
    obtain ⟨-, hr, -⟩ := hends.of_ok hrun
    rw [if_pos (hr.mp rfl)]
  | error e inputName =>
    obtain ⟨hname, hr, he⟩ := hends.of_error hrun
    rw [if_neg fun h ↦ error_ne_ok (hr.mpr h)]
    dsimp only
    rw [if_pos (he e rfl), hname, Option.or_none]

/-- **The guard.** -/
theorem guarded_iff : Guarded fault stored account conf ↔ fault = none ∧
    ((∀ entry ∈ stored.take defaultCount, passes account entry = true) ∧
        (∀ entry ∈ stored, ¬Refers account entry) ∨
      (¬∀ entry ∈ stored.take defaultCount, passes account entry = true) ∧
        Nameable (lastName account (stored.take defaultCount)) ∧
        ∃ entry ∈ stored, Refers account entry) := by
  rw [Guarded, handleRemove, ends_bind, ends_liftExcept]
  cases fault with
  | some e =>
    obtain ⟨e', hcheck, hne⟩ : ∃ e', checkUnused (listInputs (some e) stored) account = .error e' ∧
        ∀ status msg, e' ≠ .restError status msg := checkUnused_of_fault e
    rw [hcheck]
    refine iff_of_false ?_ ?_
    · rintro ⟨-, h⟩
      obtain ⟨⟨status, msg, herror⟩, -⟩ := h fun h ↦ nomatch h.1
      exact hne status msg (Except.error.inj herror)
    · rintro ⟨⟨⟩, -⟩
  | none =>
    rw [checkUnused_listInputs]
    by_cases hpage : ∀ entry ∈ stored.take defaultCount, passes account entry = true
    · rw [if_pos hpage]
      change ((_ → (.ok () : Except PyError Unit) = .ok () ∧ _) ∧ _) ↔ _
      constructor
      · rintro ⟨-, h⟩
        refine ⟨rfl, .inl ⟨hpage, ?_⟩⟩
        by_contra hrefers
        obtain ⟨⟨_, _, herror⟩, -⟩ := h fun hcond ↦ hrefers hcond.2
        exact error_ne_ok herror.symm
      · rintro ⟨-, ⟨-, hunused⟩ | ⟨hnot, -⟩⟩
        · exact ⟨fun _ ↦ ⟨rfl, rfl⟩, fun hcond ↦ absurd ⟨rfl, hunused⟩ hcond⟩
        · exact absurd hpage hnot
    · rw [if_neg hpage]
      dsimp only
      constructor
      · rintro ⟨hdeleted, hrefused⟩
        have hused : ∃ entry ∈ stored, Refers account entry := by
          by_contra hunused
          simp only [not_exists, not_and] at hunused
          exact error_ne_ok (hdeleted ⟨rfl, hunused⟩).1
        obtain ⟨⟨status, msg, herror⟩, -⟩ := hrefused fun hcond ↦ by
          obtain ⟨entry, hentry, hrefers⟩ := hused
          exact hcond.2 entry hentry hrefers
        exact ⟨rfl, .inr ⟨hpage, nameable_iff.mpr ⟨status, msg, Except.error.inj herror⟩, hused⟩⟩
      · rintro ⟨-, ⟨hall, -⟩ | ⟨-, hname, entry, hentry, hrefers⟩⟩
        · exact absurd hall hpage
        · obtain ⟨status, msg, herror⟩ := nameable_iff.mp hname
          exact ⟨fun hcond ↦ absurd hrefers (hcond.2 entry hentry),
            fun _ ↦ ⟨⟨status, msg, congrArg _ herror⟩, rfl⟩⟩

/-- What a stored input looks like: its name is that of a stanza, and it can be read. -/
structure IsStanza (account : String) (entry : Json) : Prop where
  name : ∃ name suffix, nameOf entry = some name ∧ name.afterSlashes = .ok suffix
  readable : ∃ used, usesAccount account entry = .ok used

theorem IsStanza.passes_iff (h : IsStanza account entry) :
    passes account entry = true ↔ ¬Refers account entry := by
  obtain ⟨name, _, hname, -⟩ := h.name
  obtain ⟨used, hused⟩ := h.readable
  have hcontains : entry.contains "name" = .ok true := by
    by_contra hc
    rw [nameOf_eq_none hc] at hname
    cases hname
  rw [passes, hcontains, ← usesAccount_eq_ok_true_iff, hused]
  cases used <;> simp

theorem lastName_nameable (hne : entries ≠ [])
    (hstanzas : ∀ entry ∈ entries, IsStanza account entry) :
    Nameable (lastName account entries) := by
  induction entries with
  | nil => exact absurd rfl hne
  | cons entry entries ih =>
    obtain ⟨hentry, hentries⟩ := List.forall_mem_cons.mp hstanzas
    obtain ⟨name, suffix, hname, hsuffix⟩ := hentry.name
    rw [lastName_cons, hname]
    split_ifs
    · cases entries with
      | nil => exact ⟨name, suffix, rfl, hsuffix⟩
      | cons next rest =>
        obtain ⟨name', suffix', hname', hsuffix'⟩ := ih (List.cons_ne_nil _ _) hentries
        exact ⟨name', suffix', by rw [hname', Option.some_or], hsuffix'⟩
    · exact ⟨name, suffix, rfl, hsuffix⟩

/-- The guard holds while the stored inputs are stanzas and fit on a page. -/
theorem guarded_of_stanzas (hcount : stored.length ≤ defaultCount)
    (hstanzas : ∀ entry ∈ stored, IsStanza account entry) :
    Guarded none stored account conf := by
  rw [guarded_iff, List.take_of_length_le hcount]
  refine ⟨rfl, ?_⟩
  by_cases hpage : ∀ entry ∈ stored, passes account entry = true
  · exact .inl ⟨hpage, fun entry hmem ↦ (hstanzas entry hmem).passes_iff.mp (hpage entry hmem)⟩
  · refine .inr ⟨hpage, lastName_nameable ?_ hstanzas, ?_⟩
    · rintro rfl
      exact hpage fun _ hmem ↦ absurd hmem List.not_mem_nil
    · by_contra hunused
      refine hpage fun entry hmem ↦ (hstanzas entry hmem).passes_iff.mpr fun hrefers ↦ ?_
      exact hunused ⟨entry, hmem, hrefers⟩

/-- An input of the add-on that uses an account. -/
def storedInput (name account : String) : Json :=
  .obj [("name", .str name), ("acl", .obj [("app", .str appName)]),
    ("content", .obj [("azure_app_account", .str account)])]

theorem refers_storedInput (name account : String) : Refers account (storedInput name account) :=
  ⟨_, _, _, rfl, rfl, rfl, rfl, rfl⟩

/-- The names of thirty inputs, with `eu`, `eua`, `euaa` and so on after the slashes. -/
def pageNames : List String :=
  (List.range defaultCount).map fun n ↦
    "microsoft_defender_endpoint_machines://eu" ++ String.ofList (List.replicate n 'a')

example : pageNames.Nodup := by decide

/-- The account is deleted although the thirty-first input refers to it. -/
theorem not_guarded :
    ¬Guarded none (pageNames.map (storedInput · "eu") ++
      [storedInput "microsoft_defender_event_hub://us" "us"]) "us" [("us", [])] := by
  intro h
  have hcheck : checkUnused (listInputs none (pageNames.map (storedInput · "eu") ++
      [storedInput "microsoft_defender_event_hub://us" "us"])) "us" = .ok () := rfl
  rw [Guarded, handleRemove, ends_bind, ends_liftExcept, hcheck] at h
  obtain ⟨⟨_, _, herror⟩, -⟩ := h.2 fun hcond ↦
    hcond.2 _ (List.mem_append_right _ List.mem_cons_self) (refers_storedInput _ _)
  exact error_ne_ok herror.symm

end AccountRemoval

end MsSecurity
