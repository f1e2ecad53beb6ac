import MsSecurity.Account.Login
import MsSecurity.Python.Base64
import MsSecurity.Python.Text

/-!
# The roles of an access token

An access token is a JSON web token: three segments between dots, the second of which is the
unpadded base64url encoding of a JSON text. `decode_access_token` restores the padding but reads the
segment in the standard alphabet, whose decoder passes over `-` and `_` without a word. The groups
after such a character move up, so that other bytes are read, or none.

The claims are taken for an object outside of the handlers, so that any other JSON value raises.

## Main results

* `decodedClaims_encodedToken`: the claims that are read, by what is left of the payload.
* `returnsRoles_iff`: the roles are returned exactly when the claims are an object and no `-` or `_`
  stands in the payload, but for texts that read the same without these characters.
-/

namespace MsSecurity

/-! ## Reading a payload -/

/-- `json.loads(b64decode(segment))`. -/
def decodeSegment (loads : List UInt8 → Decoded) (segment : String) : Decoded :=
  match Base64.b64decode segment with
  | some bytes => loads bytes
  | none => .otherException

/-- The services, where a segment is decoded as the source does it. -/
def LoginServices.loading (services : LoginServices) (loads : List UInt8 → Decoded) :
    LoginServices :=
  { services with decode := decodeSegment loads }

/-- A token with this text as its claims. -/
def encodedToken (header signature : String) (text : List UInt8) : String :=
  header ++ "." ++ Base64.urlsafeEncode text ++ "." ++ signature

theorem dot_not_mem_urlsafeEncode (text : List UInt8) :
    '.' ∉ (Base64.urlsafeEncode text).toList := by
  rw [Base64.urlsafeEncode, String.toList_ofList, List.mem_map]
  rintro ⟨v, hv, hdot⟩
  exact (Base64.urlsafeChar_ne v (Base64.sextets_lt text v hv)).2.1 hdot

/-- The segment that is read is the payload, padded. -/
theorem claimsSegment_encodedToken {header : String} (hheader : '.' ∉ header.toList)
    (signature : String) (text : List UInt8) :
    claimsSegment (encodedToken header signature text) =
      some (Base64.pad (Base64.urlsafeEncode text)) := by
  have htoken : (encodedToken header signature text).toList = header.toList ++ '.' ::
      ((Base64.urlsafeEncode text).toList ++ '.' :: signature.toList) := by
    simp [encodedToken]
  have hsplit : (encodedToken header signature text).splitOn "." =
      header :: Base64.urlsafeEncode text :: (signature.toList.splitOn '.').map String.ofList := by
    change (encodedToken header signature text).splitOn (String.singleton '.') = _
    rw [splitOn_singleton, htoken, List.splitOn_append_cons_self_of_not_mem hheader,
      List.splitOn_append_cons_self_of_not_mem (dot_not_mem_urlsafeEncode text)]
    simp
  rw [claimsSegment, hsplit]
  rfl

/-! ## What is read -/

/-- The bytes that are read where `text` was encoded: `-` and `_` are the groups 62 and 63. -/
def bytesRead (text : List UInt8) : Option (List UInt8) :=
  let groups := (Base64.sextets text).filter (· < 62)
  if Base64.Complete groups.length ((4 - (Base64.sextets text).length % 4) % 4) then
    some (Base64.bytesOf groups)
  else none

/-- Neither `-` nor `_` stands in the payload. -/
def PlainPayload (text : List UInt8) : Prop :=
  '-' ∉ (Base64.urlsafeEncode text).toList ∧ '_' ∉ (Base64.urlsafeEncode text).toList

instance (text : List UInt8) : Decidable (PlainPayload text) :=
  inferInstanceAs (Decidable (_ ∧ _))

theorem plainPayload_iff {text : List UInt8} :
    PlainPayload text ↔ ∀ v ∈ Base64.sextets text, v < 62 := by
  rw [PlainPayload, Base64.urlsafeEncode, String.toList_ofList]
  constructor
  · rintro ⟨hminus, hunderscore⟩ v hv
    by_contra hle
    obtain rfl | rfl : v = 62 ∨ v = 63 := by
      have := Base64.sextets_lt text v hv
      omega
    · exact hminus (List.mem_map_of_mem hv)
    · exact hunderscore (List.mem_map_of_mem hv)
  · intro h
    -- a group below 62 has a character that is in the standard alphabet
    have hne : ∀ c ∈ (Base64.sextets text).map Base64.urlsafeChar, Base64.sextet? c ≠ none := by
      rintro _ hc hnone
      obtain ⟨v, hv, rfl⟩ := List.mem_map.mp hc
      rw [Base64.sextet?_urlsafeChar v (h v hv)] at hnone
      cases hnone
    exact ⟨fun hc ↦ hne _ hc (by decide +kernel), fun hc ↦ hne _ hc (by decide +kernel)⟩

theorem b64decode_urlsafeEncode (text : List UInt8) :
    Base64.b64decode (Base64.pad (Base64.urlsafeEncode text)) = bytesRead text :=
  Base64.b64decode_pad_urlsafeEncode text

theorem bytesRead_of_plainPayload {text : List UInt8} (h : PlainPayload text) :
    bytesRead text = some text := by
  rw [← b64decode_urlsafeEncode, Base64.b64decode_pad_of_forall_lt (plainPayload_iff.mp h)]

/-- The claims that are read in place of those of the text. -/
def claimsRead (loads : List UInt8 → Decoded) (text : List UInt8) : Decoded :=
  match bytesRead text with
  | some bytes => loads bytes
  | none => .otherException

variable {services : LoginServices} {loads : List UInt8 → Decoded} {header : String}

theorem decodedClaims_encodedToken (hheader : '.' ∉ header.toList) (signature : String)
    (text : List UInt8) :
    decodedClaims (services.loading loads) (.str (encodedToken header signature text)) =
      claimsRead loads text := by
  rw [decodedClaims, claimsSegment_encodedToken hheader]
  change decodeSegment loads _ = _
  rw [decodeSegment, b64decode_urlsafeEncode, claimsRead]

/-! ## The roles -/

/-- The member `roles`, of an object that has one. -/
def rolesOf : Json → Option Json
  | .obj fields => Dict.get fields "roles"
  | _ => none

/-- The roles of `P` are returned; for a `P` without roles, anything is. -/
def ReturnsRoles (result : Except PyError Json) (P : Json) : Prop :=
  ∃ r, result = .ok r ∧ ∀ roles, rolesOf P = some roles → r = roles

/-- The claims read are no other value than an object, and what is made of them agrees with the
roles of `P`. -/
def ReadsRoles (P : Json) : Decoded → Prop
  | .claims (.obj fields) => ∀ roles, rolesOf P = some roles →
      (Dict.get fields "roles").getD (.str "<roles not found in the decoded token>") = roles
  | .claims _ => False
  | .jsonDecodeError => ∀ roles, rolesOf P = some roles →
      .str "\"Invalid JSON found, unable to decode the access token\"" = roles
  | .otherException => ∀ roles, rolesOf P = some roles →
      .str "\"Unable to parse the access token\"" = roles

theorem returnsRoles_ok_iff {r P : Json} :
    ReturnsRoles (.ok r) P ↔ ∀ roles, rolesOf P = some roles → r = roles := by
  constructor
  · rintro ⟨_, ⟨⟩, h⟩
    exact h
  · exact fun h ↦ ⟨r, rfl, h⟩

theorem returnsRoles_iff_readsRoles {accessToken P : Json} {reading : Decoded}
    (h : decodedClaims services accessToken = reading) :
    ReturnsRoles (decodeAccessToken services accessToken) P ↔ ReadsRoles P reading := by
  rw [decodeAccessToken, h]
  cases reading with
  | jsonDecodeError => exact returnsRoles_ok_iff
  | otherException => exact returnsRoles_ok_iff
  | claims v =>
    cases v with
    | obj fields => exact returnsRoles_ok_iff
    | _ =>
      refine iff_of_false ?_ id
      rintro ⟨_, ⟨⟩, -⟩

theorem readsRoles_claims_self_iff {P : Json} :
    ReadsRoles P (.claims P) ↔ ∃ fields, P = .obj fields := by
  cases P with
  | obj fields =>
    refine iff_of_true (fun roles hroles ↦ ?_) ⟨fields, rfl⟩
    rw [show Dict.get fields "roles" = some roles from hroles, Option.getD_some]
  | _ => exact iff_of_false id fun ⟨_, h⟩ ↦ nomatch h

/-- **When the roles of a token are returned.** Without `-` and `_` in the payload, exactly when the
claims are an object; with one of them, when what is left of the payload happens to read alike. -/
theorem returnsRoles_iff (services : LoginServices) {loads : List UInt8 → Decoded} {header : String}
    (hheader : '.' ∉ header.toList) (signature : String) {text : List UInt8} {P : Json}
    (htext : loads text = .claims P) :
    ReturnsRoles (decodeAccessToken (services.loading loads)
        (.str (encodedToken header signature text))) P ↔
      (PlainPayload text ∧ ∃ fields, P = .obj fields) ∨
        (¬PlainPayload text ∧ ReadsRoles P (claimsRead loads text)) := by
  rw [returnsRoles_iff_readsRoles (decodedClaims_encodedToken hheader signature text)]
  by_cases hplain : PlainPayload text
  · rw [claimsRead, bytesRead_of_plainPayload hplain]
    dsimp only
    rw [htext, readsRoles_claims_self_iff]
    simp [hplain]
  · simp [hplain]

/-! ## Three texts -/

/-- A text in ASCII. -/
def asciiText (text : String) : List UInt8 := text.toList.map fun c ↦ .ofNat c.toNat

/-- One text is read as `P`, and nothing else is JSON. -/
def loadsOnly (text : List UInt8) (P : Json) (bytes : List UInt8) : Decoded :=
  if bytes = text then .claims P else .jsonDecodeError

theorem loadsOnly_self (text : List UInt8) (P : Json) : loadsOnly text P text = .claims P :=
  if_pos rfl

/-- The roles of a token as the identity platform issues it. -/
theorem returnsRoles_alert : ReturnsRoles (decodeAccessToken
    ((answering grant).loading (loadsOnly (asciiText "\x7b\"roles\":[\"Alert.Read.All\"]\x7d")
      (.obj [("roles", .arr [.str "Alert.Read.All"])])))
    (.str (encodedToken "e30" "c2ln" (asciiText "\x7b\"roles\":[\"Alert.Read.All\"]\x7d"))))
    (.obj [("roles", .arr [.str "Alert.Read.All"])]) :=
  (returnsRoles_iff (answering grant) (by decide +kernel) "c2ln" (loadsOnly_self _ _)).mpr
    (.inl ⟨by decide +kernel, _, rfl⟩)

/-- The payload of `{"roles":["?"]}` has an `_`, and what is left is no whole text; that of `[]` is
read, and raises. -/
theorem not_returnsRoles :
    ¬ReturnsRoles (decodeAccessToken
      ((answering grant).loading (loadsOnly (asciiText "\x7b\"roles\":[\"?\"]\x7d")
        (.obj [("roles", .arr [.str "?"])])))
      (.str (encodedToken "e30" "c2ln" (asciiText "\x7b\"roles\":[\"?\"]\x7d"))))
      (.obj [("roles", .arr [.str "?"])]) ∧
    ¬ReturnsRoles (decodeAccessToken
      ((answering grant).loading (loadsOnly (asciiText "[]") (.arr [])))
      (.str (encodedToken "e30" "c2ln" (asciiText "[]")))) (.arr []) := by
  have hheader : '.' ∉ "e30".toList := by decide +kernel
  constructor
  · rw [returnsRoles_iff_readsRoles (decodedClaims_encodedToken hheader "c2ln" _)]
    have hread : bytesRead (asciiText "\x7b\"roles\":[\"?\"]\x7d") = none := by decide +kernel
    rw [claimsRead, hread]
    exact fun h ↦ nomatch h _ rfl
  · rw [returnsRoles_iff_readsRoles (decodedClaims_encodedToken hheader "c2ln" _)]
    have hread : bytesRead (asciiText "[]") = some (asciiText "[]") := by decide +kernel
    rw [claimsRead, hread]
    dsimp only
    rw [loadsOnly_self]
    exact id

end MsSecurity
