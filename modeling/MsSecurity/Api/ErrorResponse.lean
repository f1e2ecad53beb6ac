import MsSecurity.Python.Effect

/-!
# Error responses of a service

`raise_error_from_http_error` turns a failed request into a `TaExecutionException`, and logs the
message of the service if the body of the response has one. It walks the body by `get` and by
subscription, under a handler for `KeyError`, `JSONDecodeError` and `TypeError`. What `get` raises
on anything but an object is an `AttributeError`, and what is raised for bytes that are no text is
no `JSONDecodeError` either.

## Main results

* `detailedErrorMessage_eq`: what is made of a body, by its shape.
* `reports_iff`: the exception is the one promised, and the message is logged, exactly when the body
  is missing, empty, not JSON, false, or an object whose `error` is false or an object.
-/

namespace MsSecurity

/-! ## The exception -/

/-- What `json.loads` raises on bytes. -/
inductive LoadsError
  | jsonDecodeError
  | unicodeDecodeError
  /-- An integer with too many digits. -/
  | valueError
  /-- Brackets nested too deep. -/
  | recursionError
  deriving DecidableEq

def LoadsError.toPyError : LoadsError → PyError
  | .jsonDecodeError => .other "JSONDecodeError"
  | .unicodeDecodeError => .other "UnicodeDecodeError"
  | .valueError => .valueError ""
  | .recursionError => .other "RecursionError"

/-- A `RequestException`. -/
structure RequestException where
  error : PyError
  /-- `str(e)`. -/
  text : String
  /-- `e.response.content`, if there is a response. -/
  content : Option (List UInt8)

/-! ## The function -/

variable (loads : List UInt8 → Except LoadsError Json) (str : Json → String)

/-- `error_dict`. -/
def errorDict (e : RequestException) : Except PyError Json :=
  match e.content with
  | some content => if content ≠ [] then (loads content).mapError LoadsError.toPyError
      else .ok .null
  | none => .ok .null

/-- `detailed_error_message`. -/
def detailedErrorMessage (errorDict : Json) : Except PyError (Option String) := do
  if errorDict.truthy then
    if ((← asObject errorDict).getD "error").truthy then
      if ((← asObject (← errorDict.item "error")).getD "message").truthy then
        let message ← (← errorDict.item "error").item "message"
        return some ("Failure occurred. Received error message: " ++ str message)
      else return none
    else return none
  else return none

/-- `except (KeyError, JSONDecodeError, TypeError)`. -/
def isWalkError : PyError → Bool
  | .keyError _ => true
  | .typeError => true
  | .other name => name = "JSONDecodeError"
  | _ => false

/-- `raise_error_from_http_error`; the state is what the logger was given as errors. -/
def raiseErrorFromHttpError (e : RequestException) : EStateM PyError (List String) Unit := do
  let errorMessage := "Failure occurred while loading error response: " ++ e.text
  let detailedErrorMessage ← tryCatch
    (liftExcept (errorDict loads e >>= detailedErrorMessage str))
    fun innerEx ↦ if isWalkError innerEx then pure none else throw innerEx
  modify (· ++ [detailedErrorMessage.getD errorMessage])
  throw (.taExecutionFrom e.error 1)

/-! ## Shapes of a body -/

/-- `get` is called on objects only. -/
def Walkable (v : Json) : Prop :=
  v.truthy = false ∨ ∃ fields, v = .obj fields ∧ ((Json.Object.getD fields "error").truthy = false ∨
    ∃ errorFields, Dict.get fields "error" = some (.obj errorFields))

/-- The message of the service. -/
def HasMessage (v message : Json) : Prop :=
  ∃ fields errorFields, v = .obj fields ∧ Dict.get fields "error" = some (.obj errorFields) ∧
    Dict.get errorFields "message" = some message ∧ message.truthy = true

variable {loads str}

theorem truthy_obj_of_get {fields : Json.Object} {key : String} {v : Json}
    (h : Dict.get fields key = some v) : (Json.obj fields).truthy = true := by
  cases fields with
  | nil => cases h
  | cons field fields => rfl

theorem detailedErrorMessage_obj_obj {fields errorFields : Json.Object}
    (h : Dict.get fields "error" = some (.obj errorFields)) :
    detailedErrorMessage str (.obj fields) =
      if (Json.Object.getD errorFields "message").truthy then
        .ok (some ("Failure occurred. Received error message: " ++
          str (Json.Object.getD errorFields "message")))
      else .ok none := by
  have hget : Json.Object.getD fields "error" = .obj errorFields := by
    rw [Json.Object.getD, h, Option.getD_some]
  have hitem : (Json.obj fields).item "error" = .ok (.obj errorFields) :=
    Dict.getItem_eq_ok_iff.mpr h
  rw [detailedErrorMessage, if_pos (truthy_obj_of_get h)]
  change (if (Json.Object.getD fields "error").truthy = true then _ else _) = _
  rw [hget, hitem]
  cases errorFields with
  | nil => rfl
  | cons field errorFields =>
    have htruthy : (Json.obj (field :: errorFields)).truthy = true := rfl
    rw [if_pos htruthy]
    change (if (Json.Object.getD (field :: errorFields) "message").truthy = true then _ else _) = _
    by_cases hmessage : (Json.Object.getD (field :: errorFields) "message").truthy = true
    · rw [if_pos hmessage, if_pos hmessage]
      cases hm : Dict.get (field :: errorFields) "message" with
      | none =>
        rw [Json.Object.getD, hm] at hmessage
        cases hmessage
      | some message =>
        have hitem' : (Json.obj (field :: errorFields)).item "message" = .ok message :=
          Dict.getItem_eq_ok_iff.mpr hm
        rw [Json.Object.getD, hm, Option.getD_some]
        change ((Json.obj (field :: errorFields)).item "message" >>= _) = _
        rw [hitem']
        rfl
    · rw [if_neg hmessage, if_neg hmessage]
      rfl

theorem detailedErrorMessage_of_hasMessage {v message : Json} (h : HasMessage v message) :
    detailedErrorMessage str v =
      .ok (some ("Failure occurred. Received error message: " ++ str message)) := by
  obtain ⟨fields, errorFields, rfl, herror, hmessage, htruthy⟩ := h
  have hget : Json.Object.getD errorFields "message" = message := by
    rw [Json.Object.getD, hmessage, Option.getD_some]
  rw [detailedErrorMessage_obj_obj herror, hget, if_pos htruthy]

theorem detailedErrorMessage_of_walkable {v : Json} (h : Walkable v) :
    ∃ detailed, detailedErrorMessage str v = .ok detailed := by
  obtain hfalse | ⟨fields, rfl, hfalse | ⟨errorFields, herror⟩⟩ := h
  · exact ⟨none, by rw [detailedErrorMessage, hfalse]; rfl⟩
  · refine ⟨none, ?_⟩
    rw [detailedErrorMessage]
    split
    · change (if (Json.Object.getD fields "error").truthy = true then _ else _) = _
      rw [hfalse]
      rfl
    · rfl
  · rw [detailedErrorMessage_obj_obj herror]
    split <;> exact ⟨_, rfl⟩

theorem detailedErrorMessage_of_not_walkable {v : Json} (h : ¬Walkable v) :
    detailedErrorMessage str v = .error .attributeError := by
  rw [Walkable, not_or, Bool.not_eq_false] at h
  obtain ⟨htrue, hshape⟩ := h
  rw [detailedErrorMessage, if_pos htrue]
  cases v with
  | obj fields =>
    change (if (Json.Object.getD fields "error").truthy = true then _ else _) = _
    cases herror : Dict.get fields "error" with
    | none => exact absurd ⟨fields, rfl, .inl (by rw [Json.Object.getD, herror]; rfl)⟩ hshape
    | some error =>
      have hget : Json.Object.getD fields "error" = error := by
        rw [Json.Object.getD, herror, Option.getD_some]
      have hitem : (Json.obj fields).item "error" = .ok error := Dict.getItem_eq_ok_iff.mpr herror
      have htruthy : error.truthy = true := by
        rw [← Bool.not_eq_false]
        exact fun hfalse ↦ hshape ⟨fields, rfl, .inl (by rw [hget, hfalse])⟩
      rw [hget, if_pos htruthy, hitem]
      cases error with
      | obj errorFields => exact absurd ⟨fields, rfl, .inr ⟨errorFields, herror⟩⟩ hshape
      | _ => rfl
  | _ => rfl

/-! ## What is raised and what is logged -/

/-- The promise: the exception wraps `e`, with exit code 1, and a message of the service is what is
logged. -/
def Reports (loads : List UInt8 → Except LoadsError Json) (str : Json → String)
    (e : RequestException) : Prop :=
  ∀ s, Ends (raiseErrorFromHttpError loads str e) s fun r t ↦
    r = .error (.taExecutionFrom e.error 1) ∧
      ∀ content v message, e.content = some content → content ≠ [] → loads content = .ok v →
        HasMessage v message →
          t = s ++ ["Failure occurred. Received error message: " ++ str message]

/-- The body can be read and walked, or what is raised is handled. -/
def Handled (loads : List UInt8 → Except LoadsError Json) (content : List UInt8) : Prop :=
  match loads content with
  | .ok v => Walkable v
  | .error err => err = .jsonDecodeError

theorem isWalkError_toPyError_iff {err : LoadsError} :
    isWalkError err.toPyError = true ↔ err = .jsonDecodeError := by
  cases err <;> decide

theorem ends_raiseErrorFromHttpError {e : RequestException} {s : List String}
    {Q : Except PyError Unit → List String → Prop} :
    Ends (raiseErrorFromHttpError loads str e) s Q ↔
      match errorDict loads e >>= detailedErrorMessage str with
      | .ok detailed => Q (.error (.taExecutionFrom e.error 1))
          (s ++ [detailed.getD ("Failure occurred while loading error response: " ++ e.text)])
      | .error err => if isWalkError err then Q (.error (.taExecutionFrom e.error 1))
            (s ++ ["Failure occurred while loading error response: " ++ e.text])
          else Q (.error err) s := by
  rw [raiseErrorFromHttpError, ends_bind, ends_tryCatch, ends_liftExcept]
  cases errorDict loads e >>= detailedErrorMessage str with
  | ok detailed => exact Iff.rfl
  | error err => cases hwalk : isWalkError err <;> simp [hwalk, ends_bind]

/-- Without a body there is nothing to walk, and no message. -/
theorem reports_of_no_content {e : RequestException}
    (h : ∀ content, e.content = some content → content = []) : Reports loads str e := by
  have hdict : errorDict loads e = .ok .null := by
    rw [errorDict]
    cases hcontent : e.content with
    | none => rfl
    | some content => exact if_neg (not_not.mpr (h content hcontent))
  intro s
  rw [ends_raiseErrorFromHttpError, hdict]
  exact ⟨rfl, fun content _ _ hcontent hne ↦ absurd (h content hcontent) hne⟩

/-- With a body, what `json.loads` and the walk do to it decides. -/
theorem reports_iff_handled {e : RequestException} {content : List UInt8}
    (hcontent : e.content = some content) (hne : content ≠ []) :
    Reports loads str e ↔ Handled loads content := by
  have hdict : errorDict loads e = (loads content).mapError LoadsError.toPyError := by
    rw [errorDict, hcontent]
    exact if_pos hne
  -- a message is a message of this body
  have hmessage : ∀ {content' v}, e.content = some content' → loads content' = .ok v →
      loads content = .ok v := by
    intro content' v h hv
    obtain rfl := Option.some.inj (hcontent.symm.trans h)
    exact hv
  rw [Handled]
  cases hloads : loads content with
  | error err =>
    constructor
    · intro h
      have hend := h []
      rw [ends_raiseErrorFromHttpError, hdict, hloads] at hend
      change if isWalkError err.toPyError then _ else _ at hend
      by_contra hjson
      rw [if_neg (mt isWalkError_toPyError_iff.mp hjson)] at hend
      cases err <;> cases hend.1
    · rintro rfl s
      rw [ends_raiseErrorFromHttpError, hdict, hloads]
      refine ⟨rfl, fun content' v message h _ hv ↦ ?_⟩
      cases hloads.symm.trans (hmessage h hv)
  | ok v =>
    constructor
    · intro h
      by_contra hwalk
      have hend := h []
      rw [ends_raiseErrorFromHttpError, hdict, hloads] at hend
      change match detailedErrorMessage str v with | .ok _ => _ | .error _ => _ at hend
      rw [detailedErrorMessage_of_not_walkable hwalk] at hend
      cases hend.1
    · intro hwalk s
      obtain ⟨detailed, hdetailed⟩ : ∃ detailed, detailedErrorMessage str v = .ok detailed :=
        detailedErrorMessage_of_walkable hwalk
      rw [ends_raiseErrorFromHttpError, hdict, hloads]
      change match detailedErrorMessage str v with | .ok _ => _ | .error _ => _
      rw [hdetailed]
      refine ⟨rfl, fun content' v' message h _ hv hhas ↦ ?_⟩
      obtain rfl := Except.ok.inj (hloads.symm.trans (hmessage h hv))
      rw [detailedErrorMessage_of_hasMessage hhas] at hdetailed
      rw [← Except.ok.inj hdetailed, Option.getD_some]

/-- **When the promise is kept.** There is no body, or it is handled. -/
theorem reports_iff (loads : List UInt8 → Except LoadsError Json) (str : Json → String)
    (e : RequestException) :
    Reports loads str e ↔
      ∀ content, e.content = some content → content ≠ [] → Handled loads content := by
  by_cases hbody : ∃ content, e.content = some content ∧ content ≠ []
  · obtain ⟨content, hcontent, hne⟩ := hbody
    rw [reports_iff_handled hcontent hne]
    constructor
    · rintro hhandled content' hcontent' -
      obtain rfl := Option.some.inj (hcontent.symm.trans hcontent')
      exact hhandled
    · exact fun h ↦ h content hcontent hne
  · have hno : ∀ content, e.content = some content → content = [] := fun content hcontent ↦
      by_contra fun hne ↦ hbody ⟨content, hcontent, hne⟩
    exact iff_of_true (reports_of_no_content hno) fun content hcontent hne ↦
      absurd (hno content hcontent) hne

/-- `{"error":"invalid_request"}`, as the OAuth 2.0 protocol describes an error. -/
def oauthError : List UInt8 :=
  "\x7b\"error\":\"invalid_request\"\x7d".toList.map fun c ↦ .ofNat c.toNat

/-- For such a body an `AttributeError` is raised, and nothing is logged. -/
theorem not_reports_oauthError : ¬Reports
    (fun content ↦ if content = oauthError then .ok (.obj [("error", .str "invalid_request")])
      else .error .jsonDecodeError)
    (fun _ ↦ "") ⟨.httpError 400, "400 Client Error", some oauthError⟩ := by
  intro h
  rw [reports_iff_handled rfl (by decide +kernel), Handled, if_pos rfl] at h
  obtain hfalse | ⟨fields, hfields, hfalse | ⟨errorFields, herror⟩⟩ := h
  · cases hfalse
  · obtain rfl := Json.obj.inj hfields
    cases hfalse
  · obtain rfl := Json.obj.inj hfields
    cases herror

end MsSecurity
