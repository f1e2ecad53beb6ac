import MsSecurity.Python.Effect
import MsSecurity.Rest.CheckpointKey

/-!
# Removing an input

`handleRemove` of an input with a checkpoint makes two remote deletions, of the checkpoint and then
of the stanza, with a lookup before the first. Each of the three may fail, and a deletion also after
it took effect. The lookup asks for the quoted key and the DELETE request has the key as it is, so
that the one may find what the other does not address.

## Main result

* `InputRemoval.atomic_iff`: when a removal that fails has left the input and its checkpoint as they
  were.
-/

namespace MsSecurity.InputRemoval

/-- The stanzas of the configuration by name, and the documents of the collection by key. -/
structure Store where
  stanzas : Dict (Dict String)
  checkpoints : Dict Json

/-- How the steps of a removal end. -/
structure Answers where
  lookup : Option PyError
  deleteCheckpoint : RemoteChange
  deleteStanza : RemoteChange

abbrev Removal := EStateM PyError Store

/-! ## The functions -/

/-- `except Exception: sys.exit(1)`. -/
def orExit {α : Type} (x : Removal α) : Removal α := exceptWith x fun _ ↦ throw (.systemExit 1)

/-- The URL addresses the document. -/
def addresses (reading : PlusReading) (url : String) (document : String × Json) : Bool :=
  some (utf8Bytes document.1.toList) = addressedKey reading url

/-- What a GET request finds in the collection. -/
def getAddressed (reading : PlusReading) (url : String) (store : Store) : Option Json :=
  (store.checkpoints.find? (addresses reading url)).map Prod.snd

/-- What the DELETE request does to the collection. -/
def deleteAddressed (reading : PlusReading) (url : String) (store : Store) : Store :=
  { store with
    checkpoints := store.checkpoints.filter fun document ↦ !addresses reading url document }

/-- `delete_checkpoint`. -/
def deleteCheckpoint (reading : PlusReading) (answers : Answers) (inputType inputName : String) :
    Removal Unit := do
  let checkpointName := checkpointName inputType inputName
  let checkpoint ← orExit do
    attempt answers.lookup
    return getAddressed reading (queryUrl checkpointName) (← get)
  if (checkpoint.getD .null).truthy then
    orExit (remotely answers.deleteCheckpoint
      (deleteAddressed reading (restUrl inputType inputName)))
  else return ()

/-- `AdminExternalHandler.handleRemove`: `RestHandler.delete`. -/
def deleteStanza (answers : Answers) (stanza : String) : Removal Unit :=
  remotely answers.deleteStanza fun store ↦ { store with stanzas := Dict.del store.stanzas stanza }

/-- `handleRemove` of the five input types. -/
def handleRemove (reading : PlusReading) (answers : Answers) (t : CheckpointedInput)
    (inputName : String) : Removal Unit := do
  deleteCheckpoint reading answers t.inputType inputName
  deleteStanza answers (t.stanzaName inputName)

/-! ## What a failure leaves behind -/

/-- The input and its checkpoint, which its collector keeps, are as in another store. -/
structure Same (t : CheckpointedInput) (inputName : String) (store store' : Store) : Prop where
  stanza : Dict.get store'.stanzas (t.stanzaName inputName) =
    Dict.get store.stanzas (t.stanzaName inputName)
  checkpoint : ∀ key, t.checkPointKey (t.stanzaName inputName) = .ok key →
    Dict.get store'.checkpoints key = Dict.get store.checkpoints key

/-- A removal that does not succeed has changed neither the input nor its checkpoint. -/
def Atomic (reading : PlusReading) (answers : Answers) (t : CheckpointedInput)
    (inputName : String) (store : Store) : Prop :=
  Ends (handleRemove reading answers t inputName) store fun r store' ↦
    (∃ e, r = .error e) → Same t inputName store store'

/-- The lookup finds a checkpoint, under the key of the input as a request has it. -/
def Finds (reading : PlusReading) (t : CheckpointedInput) (inputName : String) (store : Store) :
    Prop :=
  ((Dict.get store.checkpoints (String.ofList ((checkpointName t.inputType inputName).toList.map
    reading.queried))).getD .null).truthy = true

/-- The DELETE request addresses the checkpoint of the input, and there is one. -/
def Hits (reading : PlusReading) (t : CheckpointedInput) (inputName : String) (store : Store) :
    Prop :=
  ∃ key, t.checkPointKey (t.stanzaName inputName) = .ok key ∧
    Dict.get store.checkpoints key ≠ none ∧
    addressedKey reading (restUrl t.inputType inputName) = some (utf8Bytes key.toList)

section Rules

variable {reading : PlusReading} {answers : Answers} {t : CheckpointedInput}
  {inputName : String} {store : Store}

/-- Whatever `delete_checkpoint` raises. -/
def exitError (e : PyError) : PyError := if e.isException then .systemExit 1 else e

theorem ends_orExit {α : Type} {x : Removal α} {Q : Except PyError α → Store → Prop} :
    Ends (orExit x) store Q ↔ Ends x store fun r store' ↦ Q (r.mapError exitError) store' := by
  rw [orExit, ends_exceptWith]
  refine iff_of_eq (congrArg (Ends x store) (funext fun r ↦ funext fun store' ↦ ?_))
  cases r with
  | ok a => rfl
  | error e =>
    dsimp only [Except.mapError]
    rw [exitError]
    cases e.isException <;> simp

theorem addresses_iff {url key : String} {v : Json}
    (h : addressedKey reading url = some (utf8Bytes key.toList)) (other : String) :
    addresses reading url (other, v) = true ↔ other = key := by
  rw [addresses, h, decide_eq_true_iff, Option.some.injEq, utf8Bytes_injective.eq_iff,
    String.toList_inj]

theorem getAddressed_queryUrl (key : String) : getAddressed reading (queryUrl key) store =
    Dict.get store.checkpoints (String.ofList (key.toList.map reading.queried)) := by
  have haddressed : addressedKey reading (queryUrl key) =
      some (utf8Bytes (String.ofList (key.toList.map reading.queried)).toList) := by
    rw [addressedKey_queryUrl, String.toList_ofList]
  rw [getAddressed]
  induction store.checkpoints with
  | nil => rfl
  | cons document documents ih =>
    obtain ⟨other, v⟩ := document
    rw [List.find?_cons, Dict.get, List.lookup_cons]
    by_cases h : other = String.ofList (key.toList.map reading.queried)
    · rw [(addresses_iff haddressed other).mpr h, h, beq_self_eq_true]
      rfl
    · rw [Bool.eq_false_of_not_eq_true fun ha ↦ h ((addresses_iff haddressed other).mp ha),
        beq_false_of_ne (Ne.symm h)]
      exact ih

theorem getAddressed_truthy_iff :
    ((getAddressed reading (queryUrl (checkpointName t.inputType inputName)) store).getD
      .null).truthy = true ↔ Finds reading t inputName store := by
  rw [getAddressed_queryUrl, Finds]

/-- The DELETE request leaves the checkpoint as it was unless it hits it. -/
theorem get_deleteAddressed_iff : (∀ key, t.checkPointKey (t.stanzaName inputName) = .ok key →
    Dict.get (deleteAddressed reading (restUrl t.inputType inputName) store).checkpoints key =
      Dict.get store.checkpoints key) ↔ ¬Hits reading t inputName store := by
  have hget (key : String) := Dict.get_filter (fun key ↦ !decide (some (utf8Bytes key.toList) =
    addressedKey reading (restUrl t.inputType inputName))) store.checkpoints key
  constructor
  · rintro h ⟨key, hkey, hsome, haddress⟩
    have hgone := (h key hkey).symm.trans (hget key)
    rw [if_neg (by simp [haddress])] at hgone
    exact hsome hgone
  · intro h key hkey
    refine (hget key).trans ?_
    split_ifs with hkept
    · rfl
    · by_contra hne
      have haddress : some (utf8Bytes key.toList) =
          addressedKey reading (restUrl t.inputType inputName) := by simpa using hkept
      exact h ⟨key, hkey, fun hnone ↦ hne hnone.symm, haddress.symm⟩

theorem ends_deleteCheckpoint_of_not {Q : Except PyError Unit → Store → Prop}
    (hlookup : answers.lookup = none) (h : ¬Finds reading t inputName store) :
    Ends (deleteCheckpoint reading answers t.inputType inputName) store Q ↔ Q (.ok ()) store := by
  rw [deleteCheckpoint, ends_bind, ends_orExit, ends_bind, ends_attempt, hlookup]
  dsimp only
  rw [ends_get_bind, ends_pure]
  change Ends (if _ then _ else _) store Q ↔ _
  rw [if_neg (getAddressed_truthy_iff.not.mpr h), ends_pure]

theorem ends_deleteCheckpoint {Q : Except PyError Unit → Store → Prop}
    (hlookup : answers.lookup = none) (h : Finds reading t inputName store) :
    Ends (deleteCheckpoint reading answers t.inputType inputName) store Q ↔
      match answers.deleteCheckpoint.fault with
      | none => Q (.ok ()) (deleteAddressed reading (restUrl t.inputType inputName) store)
      | some e => Q (.error (exitError e)) (if answers.deleteCheckpoint.applied then
          deleteAddressed reading (restUrl t.inputType inputName) store else store) := by
  rw [deleteCheckpoint, ends_bind, ends_orExit, ends_bind, ends_attempt, hlookup]
  dsimp only
  rw [ends_get_bind, ends_pure]
  change Ends (if _ then _ else _) store Q ↔ _
  rw [if_pos (getAddressed_truthy_iff.mpr h), ends_orExit, ends_remotely]
  cases answers.deleteCheckpoint.fault <;> exact Iff.rfl

theorem atomic_deleteStanza (store store' : Store)
    (hstanzas : store'.stanzas = store.stanzas) :
    Ends (deleteStanza answers (t.stanzaName inputName)) store' (fun r store'' ↦
        (∃ e, r = .error e) → Same t inputName store store'') ↔
      (answers.deleteStanza.fault ≠ none →
        (∀ key, t.checkPointKey (t.stanzaName inputName) = .ok key →
          Dict.get store'.checkpoints key = Dict.get store.checkpoints key) ∧
        (answers.deleteStanza.applied = true →
          Dict.get store.stanzas (t.stanzaName inputName) = none)) := by
  rw [deleteStanza, ends_remotely]
  cases answers.deleteStanza.fault with
  | none => exact iff_of_true (fun ⟨_, h⟩ ↦ absurd h.symm error_ne_ok) fun h ↦ absurd rfl h
  | some e =>
    dsimp only
    by_cases happlied : answers.deleteStanza.applied = true
    · rw [if_pos happlied]
      constructor
      · intro h _
        obtain ⟨hstanza, hcheckpoint⟩ := h ⟨e, rfl⟩
        rw [Dict.get_del] at hstanza
        exact ⟨hcheckpoint, fun _ ↦ hstanza.symm⟩
      · intro h _
        obtain ⟨hcheckpoint, hstanza⟩ := h (Option.some_ne_none e)
        exact ⟨(Dict.get_del _ _).trans (hstanza happlied).symm, hcheckpoint⟩
    · rw [if_neg happlied]
      constructor
      · exact fun h _ ↦ ⟨(h ⟨e, rfl⟩).checkpoint, fun ha ↦ absurd ha happlied⟩
      · intro h _
        exact ⟨by rw [hstanzas], (h (Option.some_ne_none e)).1⟩

/-- A checkpoint that is found by a name that can stand in both requests is that of the input, and
deleted. -/
theorem hits_of_finds (h : CheckpointedInput.Addressable reading inputName)
    (hfinds : Finds reading t inputName store) : Hits reading t inputName store := by
  have hquery := CheckpointedInput.addressedKey_queryUrl_of_addressable (t := t) h
  refine ⟨t.keyPrefix ++ inputName, t.checkPointKey_stanzaName h.plain.slash, fun hnone ↦ ?_, ?_⟩
  · rw [addressedKey_queryUrl, Option.some.injEq, utf8Bytes_injective.eq_iff] at hquery
    rw [Finds, CheckpointedInput.checkpointName_inputType, hquery, String.ofList_toList,
      hnone] at hfinds
    cases hfinds
  · rw [(CheckpointedInput.address_iff reading t inputName).mpr h,
      CheckpointedInput.checkpointName_inputType, hquery]

/-! A removal, by whether a checkpoint is found and whether the DELETE request fails. -/

theorem atomic_iff_of_not_finds (hlookup : answers.lookup = none)
    (hfinds : ¬Finds reading t inputName store) : Atomic reading answers t inputName store ↔
      (answers.deleteStanza.fault ≠ none → answers.deleteStanza.applied = true →
        Dict.get store.stanzas (t.stanzaName inputName) = none) := by
  rw [Atomic, handleRemove, ends_bind, ends_deleteCheckpoint_of_not hlookup hfinds]
  dsimp only
  rw [atomic_deleteStanza store store rfl]
  exact ⟨fun h hne ↦ (h hne).2, fun h hne ↦ ⟨fun _ _ ↦ rfl, h hne⟩⟩

theorem atomic_iff_of_deleted (hlookup : answers.lookup = none)
    (hfinds : Finds reading t inputName store) (hdeleted : answers.deleteCheckpoint.fault = none) :
    Atomic reading answers t inputName store ↔
      (answers.deleteStanza.fault ≠ none → ¬Hits reading t inputName store ∧
        (answers.deleteStanza.applied = true →
          Dict.get store.stanzas (t.stanzaName inputName) = none)) := by
  rw [Atomic, handleRemove, ends_bind, ends_deleteCheckpoint hlookup hfinds, hdeleted]
  dsimp only
  rw [atomic_deleteStanza store
    (deleteAddressed reading (restUrl t.inputType inputName) store) rfl, get_deleteAddressed_iff]

theorem atomic_iff_of_fault {e : PyError} (hlookup : answers.lookup = none)
    (hfinds : Finds reading t inputName store)
    (hfault : answers.deleteCheckpoint.fault = some e) :
    Atomic reading answers t inputName store ↔
      (Hits reading t inputName store → answers.deleteCheckpoint.applied ≠ true) := by
  rw [Atomic, handleRemove, ends_bind, ends_deleteCheckpoint hlookup hfinds, hfault]
  dsimp only
  by_cases happlied : answers.deleteCheckpoint.applied = true
  · rw [if_pos happlied]
    constructor
    · exact fun h hhits ↦ absurd hhits (get_deleteAddressed_iff.mp (h ⟨_, rfl⟩).checkpoint)
    · exact fun h _ ↦ ⟨rfl, get_deleteAddressed_iff.mpr fun hhits ↦ h hhits happlied⟩
  · rw [if_neg happlied]
    exact iff_of_true (fun _ ↦ ⟨rfl, fun _ _ ↦ rfl⟩) fun _ ↦ happlied

/-- **Removal.** A removal that fails has changed nothing, unless a checkpoint was found and the
deletion took effect on that of the input before a failure, or the deletion of the stanza took
effect and failed. -/
theorem atomic_iff : Atomic reading answers t inputName store ↔ answers.lookup ≠ none ∨
      (Finds reading t inputName store → Hits reading t inputName store →
        answers.deleteCheckpoint.fault = none ∨ answers.deleteCheckpoint.applied = true →
        answers.deleteCheckpoint.fault = none ∧ answers.deleteStanza.fault = none) ∧
      ((Finds reading t inputName store → answers.deleteCheckpoint.fault = none) →
        answers.deleteStanza.fault ≠ none → answers.deleteStanza.applied = true →
        Dict.get store.stanzas (t.stanzaName inputName) = none) := by
  cases hlookup : answers.lookup with
  | some e =>
    refine iff_of_true ?_ (.inl (Option.some_ne_none e))
    rw [Atomic, handleRemove, ends_bind, deleteCheckpoint, ends_bind, ends_orExit, ends_bind,
      ends_attempt, hlookup]
    exact fun _ ↦ ⟨rfl, fun _ _ ↦ rfl⟩
  | none =>
    rw [or_iff_right (not_not.mpr rfl)]
    by_cases hfinds : Finds reading t inputName store
    · cases hfault : answers.deleteCheckpoint.fault with
      | none =>
        rw [atomic_iff_of_deleted hlookup hfinds hfault]
        constructor
        · intro h
          refine ⟨fun _ hhits _ ↦ ⟨rfl, ?_⟩, fun _ hne ↦ (h hne).2⟩
          by_contra hne
          exact (h hne).1 hhits
        · rintro ⟨hlost, hgone⟩ hne
          exact ⟨fun hhits ↦ hne (hlost hfinds hhits (.inl rfl)).2, hgone (fun _ ↦ rfl) hne⟩
      | some e =>
        rw [atomic_iff_of_fault hlookup hfinds hfault]
        constructor
        · intro h
          refine ⟨fun _ hhits htook ↦ ?_, fun hreached ↦ ?_⟩
          · exact absurd (htook.resolve_left (Option.some_ne_none e)) (h hhits)
          · cases hreached hfinds
        · rintro ⟨hlost, -⟩ hhits happlied
          cases (hlost hfinds hhits (.inr happlied)).1
    · rw [atomic_iff_of_not_finds hlookup hfinds]
      constructor
      · exact fun h ↦ ⟨fun hfinds' ↦ absurd hfinds' hfinds, fun _ ↦ h⟩
      · exact fun h ↦ h.2 fun hfinds' ↦ absurd hfinds' hfinds

end Rules

/-- An alerts input with a checkpoint. -/
def prodStore : Store where
  stanzas := [("microsoft_defender_endpoint_atp_alerts://prod", [])]
  checkpoints := [("atp_lastUpdateTime_prod", .str "2024-01-01T00:00:00Z")]

/-- The deletion of the stanza fails. -/
def stanzaFails : Answers where
  lookup := none
  deleteCheckpoint := ⟨none, true⟩
  deleteStanza := ⟨some (.restError 500 "Internal Server Error"), false⟩

/-- The input is still there, and its checkpoint is not, whatever a `+` is read as. -/
theorem not_atomic : ¬∃ reading, Atomic reading stanzaFails .alerts "prod" prodStore := by
  refine not_exists.mpr fun reading ↦ ?_
  have haddressable : CheckpointedInput.Addressable reading "prod" :=
    ⟨⟨by decide, by decide, by decide, rfl⟩, by cases reading <;> decide⟩
  have hfinds : Finds reading .alerts "prod" prodStore := by cases reading <;> rfl
  rw [atomic_iff_of_deleted rfl hfinds rfl]
  exact fun h ↦ (h (Option.some_ne_none _)).1 (hits_of_finds haddressable hfinds)

end MsSecurity.InputRemoval
