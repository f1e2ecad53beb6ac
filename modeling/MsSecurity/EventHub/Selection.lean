import MsSecurity.Collector.Stream
import Mathlib.Data.List.TakeWhile

/-!
# What becomes of an event

`_select_elements` joins the sections of an event's body, parses the text, and puts every element of
its `records` through `_write_event`, which writes the records of the configured types. One handler
for `ValueError` encloses the whole loop, so that a record which is a string and not JSON ends it;
every other exception leaves the callback, and the batch is not checkpointed.

The parser is a parameter, a function of the text; it raises a `ValueError` where the text is not
JSON, and something else where the parser itself gives up.

## Main results

* `EventHubConsumerHandler.ends_selectElements`: what is written for an event and how it ends, in
  terms of its records.
* `EventHubConsumerHandler.selectElements_writes_wanted_iff`: when these are the wanted records.
-/

namespace MsSecurity

/-! ## The text of an event -/

/-- `event.body`. -/
inductive Body
  | bytes (line : ByteArray)
  | sections (lines : List ByteArray)
  /-- An AMQP value, which is no bytes. -/
  | value (v : Json)
  /-- Reading it raises `ValueError`. -/
  | empty

/-- `line.hex()`. -/
def hex (line : ByteArray) : String :=
  String.ofList (line.toList.flatMap fun b ↦
    [Nat.digitChar (b.toNat / 16), Nat.digitChar (b.toNat % 16)])

/-- The occurrences of `sub` taken out, from left to right; `skip` characters of the one found last
are still to be dropped. -/
def removeAll (sub : List Char) : ℕ → List Char → List Char
  | _, [] => []
  | skip + 1, _ :: rest => removeAll sub skip rest
  | 0, c :: rest =>
    if sub.isPrefixOf (c :: rest) then removeAll sub (sub.length - 1) rest
    else c :: removeAll sub 0 rest

namespace EventHubConsumerHandler

/-- `_normalize_event`. A line that is not bytes is `none`. -/
def normalizeEvent : Body → Except PyError (List (Option ByteArray))
  | .bytes line => .ok [some line]
  | .sections lines => .ok (lines.map some)
  | .value v => do return (← v.iter).map fun _ ↦ none
  | .empty => .ok []

/-- One step of `_decode_event`; only bytes can be decoded. -/
def decodeLine : Option ByteArray → Except PyError String
  | some line => .ok ((String.fromUTF8? line).getD (hex line))
  | none => .error .attributeError

/-- `"".join([line for line in self._decode_event(event)])`. -/
def decodedEvents (body : Body) : Except PyError String := do
  let lines ← normalizeEvent body
  return String.join (← lines.mapM decodeLine)

theorem decodedEvents_toUTF8 (text : String) : decodedEvents (.bytes text.toUTF8) = .ok text := by
  have hdecode : String.fromUTF8? text.toUTF8 = some text := by
    rw [String.fromUTF8?, dif_pos (show text.toUTF8.IsValidUTF8 from text.isValidUTF8)]
    rfl
  change Except.ok (String.join [(String.fromUTF8? text.toUTF8).getD _]) = _
  rw [hdecode]
  exact congrArg Except.ok (String.ext (by simp [String.join]))

end EventHubConsumerHandler

/-! ## The handler -/

/-- What the handler is set up with. -/
structure EventHubConsumerHandler where
  index : String
  eventHubName : String
  streamingEventTypes : List String

/-- What the handler changes while it selects. -/
structure HandlerState where
  /-- The events written to the index, oldest first. -/
  index : List Event
  skippedEventsCount : ℕ
  ingestedEventsCount : ℕ

/-- What the handler calls. -/
structure HandlerServices where
  /-- `json.loads`. -/
  loads : String → Except PyError Json
  /-- `json.dumps` and `write_event`, where one of them raises. -/
  writeEvent : List Event → Event → Option PyError

/-- A writer that does not fail. -/
def HandlerServices.ofLoads (loads : String → Except PyError Json) : HandlerServices where
  loads := loads
  writeEvent := fun _ _ ↦ none

@[simp] theorem HandlerServices.ofLoads_loads (loads : String → Except PyError Json) :
    (HandlerServices.ofLoads loads).loads = loads := rfl

abbrev Handling := EStateM PyError HandlerState

namespace EventHubConsumerHandler

/-- `__init__`, from the parameters of the input. -/
def ofInput (index eventHubName streamingEventTypes : String) : EventHubConsumerHandler where
  index := index
  eventHubName := eventHubName
  streamingEventTypes := streamingEventTypes.splitOn ","

/-- `category.replace("AdvancedHunting-", "")`. -/
def stripCategory (category : String) : String :=
  String.ofList (removeAll "AdvancedHunting-".toList 0 category.toList)

/-- The `event_type` of a parsed record. -/
def eventType (data : Json.Object) : Except PyError String :=
  match (Dict.get data "category").getD (.str "") with
  | .str category => .ok (stripCategory category)
  | _ => .error .attributeError

variable (handler : EventHubConsumerHandler) (services : HandlerServices)

def event (data : Json.Object) : Event where
  data := .obj data
  index := handler.index
  source := "microsoft_defender_event_hub:" ++ handler.eventHubName
  sourcetype := "ms:defender:eventhub"

/-- `_write_event`. -/
def writeEvent (data : Json) : Handling Unit := do
  let data ← liftExcept (asObject data)
  let eventType ← liftExcept (eventType data)
  if eventType = "" ∨ eventType ∉ handler.streamingEventTypes then
    modify fun s ↦ { s with skippedEventsCount := s.skippedEventsCount + 1 }
  else
    attempt (services.writeEvent (← get).index (handler.event data))
    modify fun s ↦ { s with
      index := s.index ++ [handler.event data]
      ingestedEventsCount := s.ingestedEventsCount + 1 }

/-- An element of `records`, parsed if it is a string. -/
def loadElement (loads : String → Except PyError Json) : Json → Except PyError Json
  | .str text => loads text
  | data => .ok data

/-- The loop of `_select_elements`. -/
def writeElements : List Json → Handling Unit
  | [] => pure ()
  | data :: elements => do
    handler.writeEvent services (← liftExcept (loadElement services.loads data))
    writeElements elements

/-- The records of a parsed body, if it has a list of them. -/
def recordsOf (eventBody : Json) : List Json :=
  match eventBody with
  | .obj fields =>
    match Dict.get fields "records" with
    | some (.arr records) => records
    | _ => []
  | _ => []

/-- `except ValueError: ...`. -/
def exceptValueError (x : Handling Unit) : Handling Unit :=
  tryCatch x fun e ↦ match e with
    | .valueError _ => pure ()
    | e => throw e

/-- `_select_elements`. -/
def selectElements (body : Body) : Handling Unit := do
  let decodedEvents ← liftExcept (decodedEvents body)
  exceptValueError do
    let eventBody ← liftExcept (services.loads decodedEvents)
    handler.writeElements services (recordsOf eventBody)

/-! ## Records -/

/-- The object that an element is, or that its text parses to. -/
def objectOf (loads : String → Except PyError Json) : Json → Option Json.Object
  | .obj fields => some fields
  | .str text =>
    match loads text with
    | .ok (.obj fields) => some fields
    | _ => none
  | _ => none

/-- A string that is not JSON. -/
def notJson (loads : String → Except PyError Json) : Json → Bool
  | .str text =>
    match loads text with
    | .error (.valueError _) => true
    | _ => false
  | _ => false

theorem objectOf_eq_some_iff {loads : String → Except PyError Json} {data : Json}
    {fields : Json.Object} :
    objectOf loads data = some fields ↔ loadElement loads data = .ok (.obj fields) := by
  cases data with
  | str text =>
    rw [objectOf, loadElement]
    split <;> simp_all
  | _ => simp [objectOf, loadElement]

theorem notJson_iff {loads : String → Except PyError Json} {data : Json} :
    notJson loads data = true ↔ ∃ msg, loadElement loads data = .error (.valueError msg) := by
  cases data with
  | str text =>
    rw [notJson, loadElement]
    split <;> simp_all
  | _ => simp [notJson, loadElement]

/-- Every `category` that is present is a string. -/
def TextCategory (data : Json.Object) : Prop :=
  ∀ v, Dict.get data "category" = some v → ∃ category, v = .str category

/-- The elements the loop comes to: those before the first string that is not JSON. -/
def reached (loads : String → Except PyError Json) (elements : List Json) : List Json :=
  elements.takeWhile fun data ↦ !notJson loads data

/-- The elements the loop comes to are records. -/
def Harmless (loads : String → Except PyError Json) (elements : List Json) : Prop :=
  ∀ data ∈ reached loads elements, ∃ fields, objectOf loads data = some fields ∧ TextCategory fields

/-- What `_write_event` reads as the category of a record. -/
def category (data : Json.Object) : String :=
  match Dict.get data "category" with
  | some (.str category) => category
  | _ => ""

theorem eventType_eq_ok {data : Json.Object} (h : TextCategory data) :
    eventType data = .ok (stripCategory (category data)) := by
  unfold eventType category
  cases hv : Dict.get data "category" with
  | none => rfl
  | some v =>
    obtain ⟨category, rfl⟩ := h v hv
    rfl

theorem eventType_eq_error {data : Json.Object} (h : ¬TextCategory data) :
    eventType data = .error .attributeError := by
  unfold eventType
  cases hv : Dict.get data "category" with
  | none => exact absurd (fun v h' ↦ nomatch hv.symm.trans h') h
  | some v =>
    cases v with
    | str category =>
      refine absurd (fun v h' ↦ ⟨category, ?_⟩) h
      exact (Option.some.inj (hv.symm.trans h')).symm
    | _ => rfl

/-- The records of an event; one that cannot be read has none. -/
def elementsOf (loads : String → Except PyError Json) (body : Body) : List Json :=
  match decodedEvents body >>= loads with
  | .ok eventBody => recordsOf eventBody
  | .error _ => []

/-- Nothing in the body of an event is met that raises anything but a `ValueError` of the parser. -/
structure HarmlessBody (loads : String → Except PyError Json) (body : Body) : Prop where
  decodes : ∃ text, decodedEvents body = .ok text ∧
    ∀ e, loads text = .error e → ∃ msg, e = .valueError msg
  elements : Harmless loads (elementsOf loads body)

/-- The records that `_write_event` writes. -/
def kept (data : Json.Object) : Bool :=
  stripCategory (category data) ≠ "" ∧
    stripCategory (category data) ∈ handler.streamingEventTypes

/-- The handler after a record. -/
def afterRecord (s : HandlerState) (data : Json.Object) : HandlerState :=
  if handler.kept data then { s with
    index := s.index ++ [handler.event data]
    ingestedEventsCount := s.ingestedEventsCount + 1 }
  else { s with skippedEventsCount := s.skippedEventsCount + 1 }

theorem foldl_afterRecord_index (records : List Json.Object) (s : HandlerState) :
    (records.foldl handler.afterRecord s).index =
      s.index ++ (records.filter handler.kept).map handler.event := by
  induction records generalizing s with
  | nil => simp
  | cons data records ih =>
    rw [List.foldl_cons, ih, afterRecord]
    by_cases hk : handler.kept data <;> simp [hk]

section Rules

variable {handler} {loads : String → Except PyError Json} {s : HandlerState}

theorem ends_writeEvent_of_textCategory {fields : Json.Object} (h : TextCategory fields)
    {Q : Except PyError Unit → HandlerState → Prop} :
    Ends (handler.writeEvent (.ofLoads loads) (.obj fields)) s Q ↔
      Q (.ok ()) (handler.afterRecord s fields) := by
  rw [writeEvent, ends_bind, ends_liftExcept]
  dsimp only [asObject]
  rw [ends_bind, ends_liftExcept, eventType_eq_ok h]
  dsimp only
  by_cases hk : stripCategory (category fields) = "" ∨
      stripCategory (category fields) ∉ handler.streamingEventTypes
  · rw [if_pos hk, ends_modify, afterRecord, if_neg]
    simpa [kept, or_iff_not_imp_left] using hk
  · rw [if_neg hk, afterRecord, if_pos (by simpa [kept, not_or] using hk)]
    rfl

theorem ends_writeEvent_of_not_record {data : Json}
    (h : ∀ fields, data = .obj fields → ¬TextCategory fields)
    {Q : Except PyError Unit → HandlerState → Prop} :
    Ends (handler.writeEvent (.ofLoads loads) data) s Q ↔ Q (.error .attributeError) s := by
  rw [writeEvent, ends_bind, ends_liftExcept]
  cases data with
  | obj fields =>
    dsimp only [asObject]
    rw [ends_bind, ends_liftExcept, eventType_eq_error (h fields rfl)]
  | _ => exact Iff.rfl

theorem ends_writeElements_cons {data : Json} {elements : List Json}
    {Q : Except PyError Unit → HandlerState → Prop} :
    Ends (handler.writeElements (.ofLoads loads) (data :: elements)) s Q ↔
      match loadElement loads data with
      | .error e => Q (.error e) s
      | .ok v => Ends (handler.writeEvent (.ofLoads loads) v) s fun r t ↦ match r with
        | .ok _ => Ends (handler.writeElements (.ofLoads loads) elements) t Q
        | .error e => Q (.error e) t := by
  rw [writeElements, ends_bind, ends_liftExcept, HandlerServices.ofLoads_loads]
  cases loadElement loads data with
  | error e => exact Iff.rfl
  | ok v => exact ends_bind

theorem reached_cons_of_notJson {data : Json} (h : notJson loads data = true)
    (elements : List Json) : reached loads (data :: elements) = [] := by
  rw [reached, List.takeWhile_cons_of_neg (by simp [h])]

theorem reached_cons {data : Json} (h : notJson loads data = false) (elements : List Json) :
    reached loads (data :: elements) = data :: reached loads elements := by
  rw [reached, List.takeWhile_cons_of_pos (by simp [h]), reached]

theorem harmless_cons {data : Json} (h : notJson loads data = false) {elements : List Json} :
    Harmless loads (data :: elements) ↔
      (∃ fields, objectOf loads data = some fields ∧ TextCategory fields) ∧
        Harmless loads elements := by
  rw [Harmless, reached_cons h, List.forall_mem_cons, Harmless]

/-- Over harmless records the loop puts those it reaches through `_write_event`. -/
theorem ends_writeElements_of_harmless {elements : List Json} (h : Harmless loads elements) :
    Ends (handler.writeElements (.ofLoads loads) elements) s fun r t ↦
      (r = .ok () ∨ ∃ msg, r = .error (.valueError msg)) ∧
        t = ((reached loads elements).filterMap (objectOf loads)).foldl handler.afterRecord s := by
  induction elements generalizing s with
  | nil => exact ⟨.inl rfl, rfl⟩
  | cons data elements ih =>
    rw [ends_writeElements_cons]
    cases hn : notJson loads data with
    | true =>
      rw [reached_cons_of_notJson hn]
      obtain ⟨msg, hmsg⟩ := notJson_iff.mp hn
      rw [hmsg]
      exact ⟨.inr ⟨msg, rfl⟩, rfl⟩
    | false =>
      rw [reached_cons hn]
      obtain ⟨⟨fields, hfields, htext⟩, helements⟩ := (harmless_cons hn).mp h
      rw [List.filterMap_cons_some hfields, List.foldl_cons]
      rw [objectOf_eq_some_iff.mp hfields]
      dsimp only
      rw [ends_writeEvent_of_textCategory htext]
      exact ih helements

/-- A record that is not harmless is met, and what it raises leaves the loop. -/
theorem ends_writeElements_of_not_harmless {elements : List Json}
    (h : ¬Harmless loads elements) :
    Ends (handler.writeElements (.ofLoads loads) elements) s fun r _ ↦
      ∃ e, r = .error e ∧ ∀ msg, e ≠ .valueError msg := by
  induction elements generalizing s with
  | nil => exact absurd (fun _ hmem ↦ absurd hmem List.not_mem_nil) h
  | cons data elements ih =>
    rw [ends_writeElements_cons]
    have hn : notJson loads data = false := by
      by_contra hn
      refine h ?_
      rw [Harmless, reached_cons_of_notJson (by simpa using hn)]
      exact fun _ hmem ↦ absurd hmem List.not_mem_nil
    rw [harmless_cons hn, not_and] at h
    cases hload : loadElement loads data with
    | error e =>
      refine ⟨e, rfl, fun msg he ↦ ?_⟩
      rw [← Bool.not_eq_true, notJson_iff] at hn
      exact hn ⟨msg, hload.trans (congrArg _ he)⟩
    | ok v =>
      dsimp only
      by_cases hv : ∃ fields, v = .obj fields ∧ TextCategory fields
      · obtain ⟨fields, rfl, htext⟩ := hv
        rw [ends_writeEvent_of_textCategory htext]
        exact ih (h ⟨fields, objectOf_eq_some_iff.mpr hload, htext⟩)
      · rw [ends_writeEvent_of_not_record fun fields hf htext ↦ hv ⟨fields, hf, htext⟩]
        exact ⟨_, rfl, fun _ he ↦ nomatch he⟩

/-- **A harmless event.** The records the loop reaches go through `_write_event`, and nothing is
raised. -/
theorem ends_selectElements {body : Body} (h : HarmlessBody loads body) :
    Ends (handler.selectElements (.ofLoads loads) body) s fun r t ↦ r = .ok () ∧
      t = ((reached loads (elementsOf loads body)).filterMap (objectOf loads)).foldl
        handler.afterRecord s := by
  obtain ⟨⟨text, htext, hvalue⟩, helements⟩ := h
  rw [selectElements, ends_bind, ends_liftExcept, htext]
  dsimp only
  rw [exceptValueError, ends_tryCatch, ends_bind, ends_liftExcept, HandlerServices.ofLoads_loads]
  have hbind : (decodedEvents body >>= loads) = loads text := congrArg (· >>= loads) htext
  rw [elementsOf, hbind] at helements ⊢
  cases hload : loads text with
  | error e =>
    obtain ⟨msg, rfl⟩ := hvalue e hload
    exact ⟨rfl, rfl⟩
  | ok eventBody =>
    rw [hload] at helements
    refine (ends_writeElements_of_harmless helements).mono ?_
    rintro r t ⟨rfl | ⟨msg, rfl⟩, ht⟩
    · exact ⟨rfl, ht⟩
    · exact ⟨rfl, ht⟩

theorem ends_selectElements_of_not_harmless {body : Body} (h : ¬HarmlessBody loads body) :
    Ends (handler.selectElements (.ofLoads loads) body) s fun r _ ↦ ∃ e, r = .error e := by
  rw [selectElements, ends_bind, ends_liftExcept]
  cases htext : decodedEvents body with
  | error e => exact ⟨e, rfl⟩
  | ok text =>
    dsimp only
    rw [exceptValueError, ends_tryCatch, ends_bind, ends_liftExcept, HandlerServices.ofLoads_loads]
    have hbind : (decodedEvents body >>= loads) = loads text := congrArg (· >>= loads) htext
    cases hload : loads text with
    | error e =>
      cases e with
      | valueError msg =>
        refine absurd ⟨⟨text, htext, fun e he ↦ ⟨msg, ?_⟩⟩, ?_⟩ h
        · exact Except.error.inj (he.symm.trans hload)
        · rw [elementsOf, hbind, hload]
          exact fun _ hmem ↦ absurd hmem List.not_mem_nil
      | _ => exact ⟨_, rfl⟩
    | ok eventBody =>
      dsimp only
      have hnot : ¬Harmless loads (recordsOf eventBody) := by
        intro helements
        refine h ⟨⟨text, htext, fun e he ↦ nomatch he.symm.trans hload⟩, ?_⟩
        rwa [elementsOf, hbind, hload]
      refine (ends_writeElements_of_not_harmless hnot).mono ?_
      rintro _ t ⟨e, rfl, he⟩
      cases e with
      | valueError msg => exact absurd rfl (he msg)
      | _ => exact ⟨_, rfl⟩

/-- An event goes through without an exception exactly when its body is harmless. -/
theorem ends_selectElements_eq_ok_iff (body : Body) :
    Ends (handler.selectElements (.ofLoads loads) body) s fun r _ ↦
      (r = .ok () ↔ HarmlessBody loads body) := by
  by_cases h : HarmlessBody loads body
  · exact (ends_selectElements h).mono fun r _ hr ↦ iff_of_true hr.1 h
  · refine (ends_selectElements_of_not_harmless h).mono ?_
    rintro _ _ ⟨e, rfl⟩
    exact iff_of_false error_ne_ok h

end Rules

/-! ## The wanted records of an event -/

/-- `result` is `text` with the occurrences of `sub` taken out, from left to right. -/
inductive TakenOut (sub : List Char) : List Char → List Char → Prop
  | nil : TakenOut sub [] []
  | found {rest result : List Char} (h : TakenOut sub rest result) :
      TakenOut sub (sub ++ rest) result
  | kept {c : Char} {rest result : List Char} (hno : ¬sub <+: c :: rest)
      (h : TakenOut sub rest result) : TakenOut sub (c :: rest) (c :: result)

theorem removeAll_skip (sub : List Char) (skip : ℕ) (text : List Char) :
    removeAll sub skip text = removeAll sub 0 (text.drop skip) := by
  induction text generalizing skip with
  | nil => rw [List.drop_nil, removeAll, removeAll]
  | cons c rest ih =>
    cases skip with
    | zero => rfl
    | succ skip => rw [removeAll, ih, List.drop_succ_cons]

theorem removeAll_found {sub : List Char} (hsub : sub ≠ []) (rest : List Char) :
    removeAll sub 0 (sub ++ rest) = removeAll sub 0 rest := by
  obtain ⟨c, sub', rfl⟩ := List.exists_cons_of_ne_nil hsub
  rw [List.cons_append, removeAll, if_pos, removeAll_skip, List.length_cons, Nat.add_sub_cancel,
    List.drop_left]
  exact List.isPrefixOf_iff_prefix.mpr ⟨rest, rfl⟩

theorem takenOut_removeAll {sub : List Char} (hsub : sub ≠ []) (text : List Char) :
    TakenOut sub text (removeAll sub 0 text) := by
  induction hn : text.length using Nat.strong_induction_on generalizing text with
  | _ n ih =>
    cases text with
    | nil => exact .nil
    | cons c rest =>
      by_cases hprefix : sub <+: c :: rest
      · obtain ⟨rest', hrest⟩ := hprefix
        have hlt : rest'.length < n := by
          rw [← hn, ← hrest, List.length_append]
          have := List.length_pos_iff.mpr hsub
          omega
        rw [← hrest, removeAll_found hsub]
        exact .found (ih _ hlt rest' rfl)
      · have hlt : rest.length < n := by
          rw [← hn]
          exact Nat.lt_succ_self _
        rw [removeAll, if_neg (fun h ↦ hprefix (List.isPrefixOf_iff_prefix.mp h))]
        exact .kept hprefix (ih _ hlt rest rfl)

theorem takenOut_iff {sub : List Char} (hsub : sub ≠ []) {text result : List Char} :
    TakenOut sub text result ↔ removeAll sub 0 text = result := by
  constructor
  · intro h
    induction h with
    | nil => rfl
    | found _ ih => rw [removeAll_found hsub, ih]
    | kept hno _ ih =>
      rw [removeAll, if_neg (fun h ↦ hno (List.isPrefixOf_iff_prefix.mp h)), ih]
  · rintro rfl
    exact takenOut_removeAll hsub text

/-- The record has a category, and it is `eventType` once `AdvancedHunting-` is taken out. -/
def HasType (data : Json.Object) (eventType : String) : Prop :=
  ∃ category, Dict.get data "category" = some (.str category) ∧
    TakenOut "AdvancedHunting-".toList category.toList eventType.toList

/-- The type of the record is among the configured ones. -/
def Wanted (data : Json.Object) : Prop :=
  ∃ eventType ∈ handler.streamingEventTypes, HasType data eventType

theorem takenOut_toList_iff {category eventType : String} :
    TakenOut "AdvancedHunting-".toList category.toList eventType.toList ↔
      stripCategory category = eventType := by
  rw [takenOut_iff (by decide), stripCategory]
  constructor
  · intro h
    rw [h, String.ofList_toList]
  · rintro rfl
    exact String.toList_ofList.symm

theorem hasType_iff {data : Json.Object} {eventType : String} :
    HasType data eventType ↔ ∃ category, Dict.get data "category" = some (.str category) ∧
      stripCategory category = eventType := by
  simp only [HasType, takenOut_toList_iff]

theorem wanted_iff {data : Json.Object} :
    handler.Wanted data ↔ (match Dict.get data "category" with
      | some (.str category) => decide (stripCategory category ∈ handler.streamingEventTypes)
      | _ => false) = true := by
  simp only [Wanted, hasType_iff]
  split
  next category h => simp [h]
  next hno =>
    refine iff_of_false ?_ Bool.false_ne_true
    rintro ⟨eventType, -, category, hcategory, -⟩
    exact hno category hcategory

instance (data : Json.Object) : Decidable (handler.Wanted data) :=
  decidable_of_iff _ handler.wanted_iff.symm

/-- An element is an object or a string, the string parses to an object or is not JSON, and the
category is a string. -/
def WellFormed (loads : String → Except PyError Json) (data : Json) : Prop :=
  notJson loads data = true ∨ ∃ fields, objectOf loads data = some fields ∧ TextCategory fields

/-- The elements the loop does not come to. -/
def unreached (loads : String → Except PyError Json) (elements : List Json) : List Json :=
  elements.dropWhile fun data ↦ !notJson loads data

/-- What is written is wanted; of what is wanted, the empty type alone is left out. -/
theorem kept_iff {data : Json.Object} :
    handler.kept data = true ↔ handler.Wanted data ∧ ¬HasType data "" := by
  have hempty : stripCategory "" = "" := rfl
  rw [kept, wanted_iff, category, hasType_iff]
  split
  next category h => simp [h, and_comm]
  next => simp [hempty]

/-- Filtering a part by the stronger of two predicates gives as much as filtering the whole by the
weaker one just when nothing is lost on either side. -/
theorem map_filter_eq_iff {α β : Type} {p q : α → Bool} (hpq : ∀ a, p a = true → q a = true)
    (f : α → β) (l l' : List α) :
    (l.filter p).map f = ((l ++ l').filter q).map f ↔
      (∀ a ∈ l, q a = true → p a = true) ∧ ∀ a ∈ l', q a = false := by
  constructor
  · intro h
    have hlength := congrArg List.length h
    rw [List.length_map, List.length_map, List.filter_append, List.length_append] at hlength
    have hsub : (l.filter p).Sublist (l.filter q) := List.monotone_filter_right l hpq
    have hle := hsub.length_le
    have hnil : l'.filter q = [] := List.length_eq_zero_iff.mp (by omega)
    have heq : l.filter p = l.filter q := hsub.eq_of_length (by omega)
    constructor
    · intro a ha hq
      have hmem : a ∈ l.filter p := heq ▸ List.mem_filter.mpr ⟨ha, hq⟩
      exact (List.mem_filter.mp hmem).2
    · simpa [List.filter_eq_nil_iff] using hnil
  · rintro ⟨hl, hl'⟩
    have hnil : l'.filter q = [] := by simpa [List.filter_eq_nil_iff] using hl'
    rw [List.filter_append, hnil, List.append_nil]
    refine congrArg (List.map f) (List.filter_congr fun a ha ↦ ?_)
    exact Bool.eq_iff_iff.mpr ⟨hpq a, hl a ha⟩

theorem wellFormed_harmless {loads : String → Except PyError Json} {elements : List Json}
    (h : ∀ data ∈ elements, WellFormed loads data) : Harmless loads elements := by
  intro data hdata
  have hn := List.mem_takeWhile_imp hdata
  rcases h data ((List.takeWhile_sublist _).mem hdata) with hnot | hrecord
  · simp [hnot] at hn
  · exact hrecord

/-- **Selection.** Of a list of well formed records, the wanted ones are written, each once and in
order, exactly when none of them comes after a string that is not JSON, and none before it has the
empty type. -/
theorem selectElements_writes_wanted_iff {loads : String → Except PyError Json} {body : Body}
    {text : String} {fields : Json.Object} {elements : List Json}
    (hbody : decodedEvents body = .ok text) (hloads : loads text = .ok (.obj fields))
    (hrecords : Dict.get fields "records" = some (.arr elements))
    (helements : ∀ data ∈ elements, WellFormed loads data) (s : HandlerState) :
    Ends (handler.selectElements (.ofLoads loads) body) s (fun _ t ↦ t.index = s.index ++
        ((elements.filterMap (objectOf loads)).filter fun record ↦ handler.Wanted record).map
          fun record ↦ {
            data := .obj record
            index := handler.index
            source := "microsoft_defender_event_hub:" ++ handler.eventHubName
            sourcetype := "ms:defender:eventhub" }) ↔
      (∀ data ∈ unreached loads elements, ∀ record, objectOf loads data = some record →
        ¬handler.Wanted record) ∧
      ∀ data ∈ reached loads elements, ∀ record, objectOf loads data = some record →
        handler.Wanted record → ¬HasType record "" := by
  have hof : elementsOf loads body = elements := by
    rw [elementsOf, hbody]
    change (match loads text with
      | .ok eventBody => recordsOf eventBody
      | .error _ => []) = elements
    rw [hloads]
    change (match Dict.get fields "records" with
      | some (.arr records) => records
      | _ => []) = elements
    rw [hrecords]
  have hharmless : HarmlessBody loads body :=
    ⟨⟨text, hbody, fun e he ↦ nomatch he.symm.trans hloads⟩, hof ▸ wellFormed_harmless helements⟩
  have hsplit : elements.filterMap (objectOf loads) =
      (reached loads elements).filterMap (objectOf loads) ++
        (unreached loads elements).filterMap (objectOf loads) := by
    rw [← List.filterMap_append, reached, unreached, List.takeWhile_append_dropWhile]
  have hkept : ∀ record, handler.kept record = true → decide (handler.Wanted record) = true :=
    fun _ h ↦ decide_eq_true (handler.kept_iff.mp h).1
  rw [(ends_selectElements hharmless).iff_of_eq, hof, foldl_afterRecord_index,
    List.append_cancel_left_eq, hsplit]
  refine (map_filter_eq_iff hkept handler.event _ _).trans ?_
  simp only [decide_eq_true_iff, decide_eq_false_iff_not, List.mem_filterMap, forall_exists_index,
    and_imp, handler.kept_iff]
  constructor
  · rintro ⟨hreached, hunreached⟩
    exact ⟨fun data hdata record hrecord ↦ hunreached record data hdata hrecord,
      fun data hdata record hrecord hw ↦ (hreached record data hdata hrecord hw).2⟩
  · rintro ⟨hunreached, hreached⟩
    exact ⟨fun record data hdata hrecord hw ↦ ⟨hw, hreached data hdata record hrecord hw⟩,
      fun record data hdata hrecord ↦ hunreached data hdata record hrecord⟩

/-! Two records, of which one is a string that is not JSON. -/

def sampleHandler : EventHubConsumerHandler := ⟨"main", "hub", ["A"]⟩

def sampleRecord : Json := .obj [("category", .str "A")]

def stringFirst : String := "\x7b\"records\":[\"x\",\x7b\"category\":\"A\"\x7d]\x7d"

def stringLast : String := "\x7b\"records\":[\x7b\"category\":\"A\"\x7d,\"x\"]\x7d"

/-- The parser at the texts it is asked for. -/
def sampleLoads (text : String) : Except PyError Json :=
  if text = stringFirst then .ok (.obj [("records", .arr [.str "x", sampleRecord])])
  else if text = stringLast then .ok (.obj [("records", .arr [sampleRecord, .str "x"])])
  else .error (.valueError "Expecting value: line 1 column 1 (char 0)")

theorem wellFormed_sample : WellFormed sampleLoads sampleRecord ∧
    WellFormed sampleLoads (.str "x") := by
  refine ⟨.inr ⟨_, rfl, ?_⟩, .inl rfl⟩
  rintro v ⟨⟩
  exact ⟨"A", rfl⟩

/-- The rule where the string comes last. -/
theorem selectElements_writes_wanted_iff_stringLast :
    Ends (sampleHandler.selectElements (.ofLoads sampleLoads) (.bytes stringLast.toUTF8))
      ⟨[], 0, 0⟩ fun _ t ↦ t.index = [{
        data := sampleRecord
        index := "main"
        source := "microsoft_defender_event_hub:hub"
        sourcetype := "ms:defender:eventhub" }] := by
  have hloads : sampleLoads stringLast = .ok (.obj [("records", .arr [sampleRecord, .str "x"])]) :=
    rfl
  refine (selectElements_writes_wanted_iff sampleHandler (decodedEvents_toUTF8 stringLast) hloads
    rfl ?_ ⟨[], 0, 0⟩).mpr ⟨?_, ?_⟩
  · exact List.forall_mem_cons.mpr ⟨wellFormed_sample.1, by simpa using wellFormed_sample.2⟩
  · change ∀ data ∈ [Json.str "x"], _
    rw [List.forall_mem_singleton]
    rintro record ⟨⟩
  · change ∀ data ∈ [sampleRecord], _
    rw [List.forall_mem_singleton]
    rintro record ⟨⟩ - hempty
    obtain ⟨category, ⟨⟩, hstrip⟩ := hasType_iff.mp hempty
    exact absurd hstrip (by decide)

/-- The record after the string is wanted and not written. -/
theorem not_selectElements_writes_wanted :
    (∀ data ∈ [Json.str "x", sampleRecord], WellFormed sampleLoads data) ∧
      ¬Ends (sampleHandler.selectElements (.ofLoads sampleLoads) (.bytes stringFirst.toUTF8))
        ⟨[], 0, 0⟩ fun _ t ↦ t.index =
          (([Json.str "x", sampleRecord].filterMap (objectOf sampleLoads)).filter
            fun record ↦ sampleHandler.Wanted record).map fun record ↦ {
              data := .obj record
              index := "main"
              source := "microsoft_defender_event_hub:hub"
              sourcetype := "ms:defender:eventhub" } := by
  constructor
  · exact List.forall_mem_cons.mpr ⟨wellFormed_sample.2, by simpa using wellFormed_sample.1⟩
  · intro h
    rw [selectElements, decodedEvents_toUTF8] at h
    have hnil : ([] : List Event) = [sampleHandler.event [("category", .str "A")]] := h
    exact List.cons_ne_nil _ _ hnil.symm

end EventHubConsumerHandler

end MsSecurity
