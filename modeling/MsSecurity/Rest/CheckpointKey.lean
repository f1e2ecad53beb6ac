import MsSecurity.Python.Quote
import MsSecurity.Python.Text
import Mathlib.Data.String.Basic

/-!
# Checkpoint keys

Five of the input types keep a checkpoint, in one collection of the KV store. Each collector makes
the key of its input from the name it finds in the name of the stanza; when an input is removed,
`delete_checkpoint` makes the key again, from the name the REST handler was called with.

A document is written under its key as it is, and asked for at a URL that ends in the quoted key, in
which a space is a `+`. The DELETE request has the key in its URL as it is. So the two requests mean
different documents by a key with a space where a `+` in a path is read as itself, and by a key with
a `+` where it is read as a space.

## Main results

* `CheckpointedInput.agree_iff`: for which names collector and removal speak of one key.
* `CheckpointedInput.separate_iff`: for which names no input touches the checkpoint of another.
-/

namespace MsSecurity

/-- The input types that keep a checkpoint. -/
inductive CheckpointedInput
  | alerts
  | incidents
  | simulations
  | machines
  | eventHub
  deriving DecidableEq

/-! ## The keys -/

/-- `checkpoint_name` in `delete_checkpoint`. -/
def checkpointName (inputType inputName : String) : String :=
  if inputType = "microsoft_defender_endpoint_atp_alerts" then
    "atp_lastUpdateTime_" ++ inputName
  else if inputType = "microsoft_365_defender_endpoint_incidents" then
    "m365_incident_lastUpdateTime_" ++ inputName
  else if inputType = "microsoft_defender_endpoint_simulations" then
    "simulation_lastUpdateTime_" ++ inputName
  else if inputType = "microsoft_defender_endpoint_machines" then
    "machines_lastUpdateTime_" ++ inputName
  else "event_hub_lastUpdate_" ++ inputName

/-- The path of the collection the checkpoints are in. -/
def collectionPath : String :=
  "/servicesNS/nobody/Splunk_TA_MS_Security/storage/collections/data/" ++
    "Splunk_TA_MS_Security_checkpointer/"

/-- `rest_url` in `delete_checkpoint`. -/
def restUrl (inputType inputName : String) : String :=
  collectionPath ++ checkpointName inputType inputName

/-- The path that `query_by_id` asks for a document at. -/
def queryUrl (key : String) : String := collectionPath ++ quotePlus key

/-- What a server reads a `+` in a path as. -/
inductive PlusReading
  | plus
  | space
  deriving DecidableEq

namespace PlusReading

def read : PlusReading → Char → Char
  | plus, c => c
  | space, c => if c = '+' then ' ' else c

/-- What a character of a key comes out as when the key was quoted. -/
def queried : PlusReading → Char → Char
  | plus, c => spaceToPlus c
  | space, c => c

/-- The character that a key is not addressed with. -/
def foreign : PlusReading → Char
  | plus => ' '
  | space => '+'

end PlusReading

/-- The key in the collection that a URL addresses. -/
def addressedKey (reading : PlusReading) (url : String) : Option (List UInt8) :=
  if collectionPath.toList.isPrefixOf url.toList then
    segmentOf ((url.toList.drop collectionPath.toList.length).map reading.read)
  else none

/-! ## Requests -/

section Requests

variable {reading : PlusReading}

theorem utf8Bytes_injective : Function.Injective utf8Bytes := by
  intro text text' h
  have hdecode := congrArg decodeReplacing h
  rw [decodeReplacing_utf8Bytes, decodeReplacing_utf8Bytes] at hdecode
  simpa using congrArg String.toList hdecode

namespace PlusReading

theorem queried_eq_read_iff {c : Char} :
    reading.queried c = reading.read c ↔ c ≠ reading.foreign := by
  cases reading with
  | plus =>
    rw [queried, spaceToPlus, read, foreign]
    split_ifs with h
    · exact iff_of_false (by rw [h]; decide) (not_not.mpr h)
    · exact iff_of_true rfl h
  | space =>
    rw [queried, read, foreign]
    split_ifs with h
    · exact iff_of_false (by rw [h]; decide) (not_not.mpr h)
    · exact iff_of_true rfl h

theorem read_of_ne {c : Char} (h : c ≠ reading.foreign) : reading.read c = c := by
  cases reading with
  | plus => rfl
  | space => exact if_neg h

theorem map_read {text : List Char} (h : reading.foreign ∉ text) : text.map reading.read = text :=
  (List.map_congr_left fun _ hc ↦ read_of_ne fun heq ↦ h (heq ▸ hc)).trans (List.map_id text)

theorem map_queried_eq_iff {text : List Char} :
    text.map reading.queried = text.map reading.read ↔ reading.foreign ∉ text := by
  rw [List.map_inj_left]
  exact ⟨fun h hmem ↦ queried_eq_read_iff.mp (h _ hmem) rfl,
    fun h c hc ↦ queried_eq_read_iff.mpr fun heq ↦ h (heq ▸ hc)⟩

theorem length_utf8Bytes_map_queried (text : List Char) :
    (utf8Bytes (text.map reading.queried)).length =
      (utf8Bytes (text.map reading.read)).length := by
  have hchar (c : Char) : (String.utf8EncodeChar (reading.queried c)).length =
      (String.utf8EncodeChar (reading.read c)).length := by
    by_cases h : c = reading.foreign
    · subst h
      cases reading <;> decide
    · rw [queried_eq_read_iff.mpr h]
  induction text with
  | nil => rfl
  | cons c text ih =>
    rw [List.map_cons, List.map_cons, utf8Bytes_cons, utf8Bytes_cons, List.length_append,
      List.length_append, hchar, ih]

end PlusReading

theorem plus_not_mem_quoteChar {c : Char} (h : c ≠ ' ') : '+' ∉ quoteChar c := by
  have hdigit : ∀ n < 16, hexDigit n ≠ '+' := by decide
  rw [quoteChar, if_neg h]
  split_ifs with hunreserved
  · rw [List.mem_singleton]
    rintro rfl
    exact absurd hunreserved (by decide)
  · intro hmem
    obtain ⟨b, -, hb⟩ := List.mem_flatMap.mp hmem
    have hlt : b.toNat < 256 := b.toNat_lt
    rw [escapeByte, List.mem_cons, List.mem_cons, List.mem_singleton] at hb
    rcases hb with hb | hb | hb
    · exact absurd hb (by decide)
    · exact hdigit _ (by omega) hb.symm
    · exact hdigit _ (by omega) hb.symm

theorem percentDecode_map_quoteChar (c : Char) (rest : List Char) :
    percentDecode ((quoteChar c).map reading.read ++ rest) =
      String.utf8EncodeChar (reading.queried c) ++ percentDecode rest := by
  cases reading with
  | plus => exact (congrArg (fun text ↦ percentDecode (text ++ rest))
      (List.map_id (quoteChar c))).trans (percentDecode_quoteChar c rest)
  | space =>
    by_cases h : c = ' '
    · subst h
      exact percentDecode_cons_of_ne (by decide) rest
    · have hchar : spaceToPlus c = c := if_neg h
      rw [PlusReading.map_read (plus_not_mem_quoteChar h), percentDecode_quoteChar, hchar,
        PlusReading.queried]

theorem percentDecode_map_quotePlus (text : List Char) :
    percentDecode ((text.flatMap quoteChar).map reading.read) =
      utf8Bytes (text.map reading.queried) := by
  induction text with
  | nil => rfl
  | cons c text ih =>
    rw [List.flatMap_cons, List.map_append, percentDecode_map_quoteChar, ih, List.map_cons,
      utf8Bytes_cons]

theorem segmentOf_map_quotePlus (key : String) :
    segmentOf ((quotePlus key).toList.map reading.read) =
      some (utf8Bytes (key.toList.map reading.queried)) := by
  have hnot {c : Char} (hc : isQuoted c = false) (hspace : c ≠ ' ') :
      c ∉ (quotePlus key).toList.map reading.read := by
    intro hmem
    obtain ⟨d, hd, rfl⟩ := List.mem_map.mp hmem
    have hquoted := isQuoted_of_mem_quotePlus hd
    cases reading with
    | plus => exact Bool.false_ne_true (hc.symm.trans hquoted)
    | space =>
      rw [PlusReading.read] at hc hspace
      split_ifs at hc hspace
      · exact hspace rfl
      · exact Bool.false_ne_true (hc.symm.trans hquoted)
  rw [segmentOf_of_not_mem (hnot (by decide) (by decide)) (hnot (by decide) (by decide))
    (hnot (by decide) (by decide)), quotePlus, String.toList_ofList, percentDecode_map_quotePlus]

theorem addressedKey_collectionPath (text : String) :
    addressedKey reading (collectionPath ++ text) = segmentOf (text.toList.map reading.read) := by
  rw [addressedKey, String.toList_append,
    if_pos (List.isPrefixOf_iff_prefix.mpr (List.prefix_append _ _)), List.drop_left]

/-- What is asked for by a key is under the key as it was quoted and read. -/
theorem addressedKey_queryUrl (key : String) :
    addressedKey reading (queryUrl key) = some (utf8Bytes (key.toList.map reading.queried)) := by
  rw [queryUrl, addressedKey_collectionPath, segmentOf_map_quotePlus]

/-- A key that is asked for and one that is deleted are one key exactly if it is plain and has no
character that the requests disagree on. -/
theorem addressedKey_eq_iff (key : String) :
    addressedKey reading (collectionPath ++ key) = addressedKey reading (queryUrl key) ↔
      IsPlain key.toList ∧ reading.foreign ∉ key.toList := by
  rw [addressedKey_queryUrl, addressedKey_collectionPath,
    segmentOf_eq_some_iff (PlusReading.length_utf8Bytes_map_queried key.toList),
    utf8Bytes_injective.eq_iff, PlusReading.map_queried_eq_iff]
  refine and_congr_left fun h ↦ ?_
  rw [PlusReading.map_read h]

end Requests

namespace CheckpointedInput

/-- The type, in the name of a stanza and in the endpoint of its REST handler. -/
def inputType : CheckpointedInput → String
  | alerts => "microsoft_defender_endpoint_atp_alerts"
  | incidents => "microsoft_365_defender_endpoint_incidents"
  | simulations => "microsoft_defender_endpoint_simulations"
  | machines => "microsoft_defender_endpoint_machines"
  | eventHub => "microsoft_defender_event_hub"

/-- What each collector puts in front of the name of its input. -/
def keyPrefix : CheckpointedInput → String
  | alerts => "atp_lastUpdateTime_"
  | incidents => "m365_incident_lastUpdateTime_"
  | simulations => "simulation_lastUpdateTime_"
  | machines => "machines_lastUpdateTime_"
  | eventHub => "event_hub_lastUpdate_"

/-- The name of the stanza of an input. -/
def stanzaName (t : CheckpointedInput) (name : String) : String := t.inputType ++ "://" ++ name

/-- `check_point_key`, in the `stream_events` of each collector, and `self.checkpoint_key` of the
checkpoint store: the key for a stanza. -/
def checkPointKey (t : CheckpointedInput) (stanza : String) : Except PyError String := do
  let inputName ← afterSlashes stanza
  return t.keyPrefix ++ inputName

/-! ## Agreement -/

/-- There is one key: the collector writes to it and asks for it, and the removal of the input asks
for it and deletes it. -/
def Agrees (reading : PlusReading) (t : CheckpointedInput) (name : String) : Prop :=
  ∃ key, t.checkPointKey (t.stanzaName name) = .ok key ∧
    addressedKey reading (queryUrl key) = some (utf8Bytes key.toList) ∧
    addressedKey reading (queryUrl (checkpointName t.inputType name)) =
      some (utf8Bytes key.toList) ∧
    addressedKey reading (restUrl t.inputType name) = some (utf8Bytes key.toList)

/-- The name can stand in both requests. -/
structure Addressable (reading : PlusReading) (name : String) : Prop where
  plain : IsPlain name.toList
  foreign : reading.foreign ∉ name.toList

theorem checkpointName_inputType (t : CheckpointedInput) (name : String) :
    checkpointName t.inputType name = t.keyPrefix ++ name := by
  cases t <;> rfl

theorem isPlain_keyPrefix (t : CheckpointedInput) :
    IsPlain t.keyPrefix.toList ∧ '%' ∉ t.keyPrefix.toList := by
  cases t <;> exact ⟨⟨by decide, by decide, by decide, rfl⟩, by decide⟩

theorem slash_not_mem_inputType (t : CheckpointedInput) : '/' ∉ t.inputType.toList := by
  cases t <;> decide

theorem foreign_not_mem_keyPrefix (reading : PlusReading) (t : CheckpointedInput) :
    reading.foreign ∉ t.keyPrefix.toList := by
  cases reading <;> cases t <;> decide

/-- The removal addresses the key it looks up exactly when the name can stand in both requests. -/
theorem address_iff (reading : PlusReading) (t : CheckpointedInput) (name : String) :
    addressedKey reading (restUrl t.inputType name) =
      addressedKey reading (queryUrl (checkpointName t.inputType name)) ↔
        Addressable reading name := by
  rw [restUrl, addressedKey_eq_iff, checkpointName_inputType, String.toList_append,
    isPlain_append_iff (isPlain_keyPrefix t).1 (isPlain_keyPrefix t).2, List.mem_append,
    or_iff_right (foreign_not_mem_keyPrefix reading t)]
  exact ⟨fun h ↦ ⟨h.1, h.2⟩, fun h ↦ ⟨h.1, h.2⟩⟩

/-- What an addressable name is asked for by is its key. -/
theorem addressedKey_queryUrl_of_addressable {reading : PlusReading} {t : CheckpointedInput}
    {name : String} (h : Addressable reading name) :
    addressedKey reading (queryUrl (t.keyPrefix ++ name)) =
      some (utf8Bytes (t.keyPrefix ++ name).toList) := by
  have hforeign : reading.foreign ∉ (t.keyPrefix ++ name).toList := by
    rw [String.toList_append, List.mem_append, not_or]
    exact ⟨foreign_not_mem_keyPrefix reading t, h.foreign⟩
  rw [addressedKey_queryUrl, PlusReading.map_queried_eq_iff.mpr hforeign,
    PlusReading.map_read hforeign]

/-- The collector of an input whose name has no `/` finds that name. -/
theorem checkPointKey_stanzaName (t : CheckpointedInput) {name : String} (h : '/' ∉ name.toList) :
    t.checkPointKey (t.stanzaName name) = .ok (t.keyPrefix ++ name) := by
  have hstanza : (t.stanzaName name).toList =
      (t.inputType.toList ++ [':']) ++ '/' :: '/' :: name.toList := by
    simp [stanzaName]
  have hslash : '/' ∉ t.inputType.toList ++ [':'] := by
    simp [slash_not_mem_inputType t]
  rw [checkPointKey, afterSlashes, hstanza, splitSlashes_append hslash,
    splitSlashes_of_slash_not_mem h]
  exact congrArg (fun piece ↦ Except.ok (t.keyPrefix ++ piece)) String.ofList_toList

/-- **Agreement.** -/
theorem agree_iff {reading : PlusReading} {t : CheckpointedInput} {name : String} :
    Agrees reading t name ↔ Addressable reading name := by
  constructor
  · rintro ⟨key, -, -, hlookup, haddress⟩
    exact (address_iff reading t name).mp (haddress.trans hlookup.symm)
  · intro h
    have hquery := addressedKey_queryUrl_of_addressable (t := t) h
    refine ⟨t.keyPrefix ++ name, checkPointKey_stanzaName t h.plain.slash, hquery, ?_, ?_⟩
    · rw [checkpointName_inputType, hquery]
    · rw [(address_iff reading t name).mpr h, checkpointName_inputType, hquery]

/-! ## Separation -/

/-- Inputs of two types never have a key in common, and neither have two inputs of one type. -/
theorem keyPrefix_append_injective {t t' : CheckpointedInput} {name name' : String}
    (h : t.keyPrefix ++ name = t'.keyPrefix ++ name') : t = t' ∧ name = name' := by
  -- the first two characters tell the types apart
  have htake : ∀ (t : CheckpointedInput) (name : String),
      (t.keyPrefix ++ name).toList.take 2 = t.keyPrefix.toList.take 2 := by
    intro t name
    rw [String.toList_append, List.take_append_of_le_length (by cases t <;> decide)]
  have htypes : ∀ t t' : CheckpointedInput,
      t.keyPrefix.toList.take 2 = t'.keyPrefix.toList.take 2 → t = t' := by
    intro t t' h
    cases t <;> cases t' <;> first | rfl | exact absurd h (by decide)
  obtain rfl := htypes t t' (by rw [← htake t name, ← htake t' name', h])
  have hlist := congrArg String.toList h
  rw [String.toList_append, String.toList_append, List.append_cancel_left_eq] at hlist
  exact ⟨rfl, String.toList_injective hlist⟩

/-- Collector and removal agree on the keys of two inputs, and these are two keys. -/
structure Separate (reading : PlusReading) (t : CheckpointedInput) (name : String)
    (t' : CheckpointedInput) (name' : String) : Prop where
  left : Agrees reading t name
  right : Agrees reading t' name'
  distinct : (t, name) ≠ (t', name') →
    t.checkPointKey (t.stanzaName name) ≠ t'.checkPointKey (t'.stanzaName name')

/-- **Separation.** Whichever of the two a `+` in a path is read as: removing or running one input
touches no checkpoint of another exactly when their names can stand in both requests. -/
theorem separate_iff {reading : PlusReading} {t t' : CheckpointedInput} {name name' : String} :
    Separate reading t name t' name' ↔
      Addressable reading name ∧ Addressable reading name' := by
  constructor
  · exact fun h ↦ ⟨agree_iff.mp h.left, agree_iff.mp h.right⟩
  · rintro ⟨hname, hname'⟩
    refine ⟨agree_iff.mpr hname, agree_iff.mpr hname', fun hne h ↦ hne ?_⟩
    rw [checkPointKey_stanzaName t hname.plain.slash,
      checkPointKey_stanzaName t' hname'.plain.slash] at h
    obtain ⟨rfl, rfl⟩ := keyPrefix_append_injective (Except.ok.inj h)
    rfl

/-- Two inputs of one type share a checkpoint, whatever a `+` is read as. -/
theorem not_separate : ¬∃ reading, Separate reading alerts "prod" alerts "prod//eu" := by
  rintro ⟨reading, h⟩
  exact h.distinct (by simp) rfl

end CheckpointedInput

end MsSecurity
