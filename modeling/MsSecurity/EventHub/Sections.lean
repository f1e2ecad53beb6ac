import MsSecurity.EventHub.Selection

/-!
# The sections of a message

An AMQP message may hold its data in several sections, and the cuts between them are the sender's:
nothing keeps them off the middle of a character. `_decode_event` decodes every section by itself
and puts the hexadecimal digits of the bytes for one that it cannot decode, so that the text comes
back as it was sent exactly if every section is a text of its own
(`EventHubConsumerHandler.decodedEvents_sections_eq_iff`).
-/

namespace MsSecurity

/-- The bytes that were cut into sections. -/
def joinSections : List ByteArray → ByteArray
  | [] => ByteArray.empty
  | line :: lines => line ++ joinSections lines

/-! ## Decoding bytes -/

theorem fromUTF8?_eq_none {line : ByteArray} (h : ¬line.IsValidUTF8) :
    String.fromUTF8? line = none := by
  rw [String.fromUTF8?, dif_neg h]

theorem toUTF8_of_fromUTF8?_eq_some {line : ByteArray} {text : String}
    (h : String.fromUTF8? line = some text) : text.toUTF8 = line := by
  rw [String.fromUTF8?] at h
  split at h
  · obtain rfl := Option.some.inj h
    rfl
  · cases h

theorem exists_fromUTF8? {line : ByteArray} (h : line.IsValidUTF8) :
    ∃ text, String.fromUTF8? line = some text :=
  ⟨_, by rw [String.fromUTF8?, dif_pos h]⟩

theorem length_le_utf8ByteSize (text : List Char) :
    text.length ≤ (String.ofList text).utf8ByteSize := by
  induction text with
  | nil => exact Nat.zero_le _
  | cons c text ih =>
    rw [← List.singleton_append, String.ofList_append, String.utf8ByteSize_append,
      ← String.singleton_eq_ofList, String.utf8ByteSize_singleton, List.length_append,
      List.length_singleton]
    exact add_le_add (Char.utf8Size_pos c) ih

theorem length_byteArray_toList (line : ByteArray) : line.toList.length = line.size := by
  have hloop (i : ℕ) (r : List UInt8) :
      (ByteArray.toList.loop line i r).length = r.length + (line.size - i) := by
    fun_induction ByteArray.toList.loop line i r with
    | case1 i r hi ih =>
      rw [ih, List.length_cons]
      omega
    | case2 i r hi =>
      rw [List.length_reverse]
      omega
  rw [ByteArray.toList, hloop, List.length_nil, zero_add, Nat.sub_zero]

theorem two_mul_size_le_utf8ByteSize_hex (line : ByteArray) :
    2 * line.size ≤ (hex line).utf8ByteSize := by
  refine le_trans (le_of_eq ?_) (length_le_utf8ByteSize _)
  rw [← length_byteArray_toList]
  induction line.toList with
  | nil => rfl
  | cons b bytes ih =>
    rw [List.flatMap_cons, List.length_append, ← ih, List.length_cons]
    simp only [List.length_cons, List.length_nil]
    omega

namespace EventHubConsumerHandler

/-- What a section becomes. -/
def decodeSection (line : ByteArray) : String := (String.fromUTF8? line).getD (hex line)

theorem decodedEvents_sections (lines : List ByteArray) :
    decodedEvents (.sections lines) = .ok (String.join (lines.map decodeSection)) := by
  have hmap : (lines.map some).mapM decodeLine =
      (.ok (lines.map decodeSection) : Except PyError (List String)) := by
    induction lines with
    | nil => rfl
    | cons line lines ih =>
      rw [List.map_cons, List.mapM_cons, ih]
      rfl
  simp only [decodedEvents, normalizeEvent, bind, Except.bind, hmap]
  rfl

theorem toUTF8_decodeSection {line : ByteArray} (h : line.IsValidUTF8) :
    (decodeSection line).toUTF8 = line := by
  obtain ⟨text, htext⟩ := exists_fromUTF8? h
  rw [decodeSection, htext]
  exact toUTF8_of_fromUTF8?_eq_some htext

theorem size_lt_utf8ByteSize_decodeSection {line : ByteArray} (h : ¬line.IsValidUTF8) :
    line.size < (decodeSection line).utf8ByteSize := by
  have hpos : 0 < line.size := by
    refine Nat.pos_of_ne_zero fun hzero ↦ h ?_
    rw [ByteArray.size_eq_zero_iff.mp hzero]
    exact ByteArray.isValidUTF8_empty
  have hhex := two_mul_size_le_utf8ByteSize_hex line
  rw [decodeSection, fromUTF8?_eq_none h, Option.getD_none]
  omega

theorem size_le_utf8ByteSize_decodeSection (line : ByteArray) :
    line.size ≤ (decodeSection line).utf8ByteSize := by
  by_cases h : line.IsValidUTF8
  · rw [← String.size_toByteArray, ← String.toUTF8_eq_toByteArray, toUTF8_decodeSection h]
  · exact (size_lt_utf8ByteSize_decodeSection h).le

theorem toUTF8_join {lines : List ByteArray} (h : ∀ line ∈ lines, line.IsValidUTF8) :
    (String.join (lines.map decodeSection)).toUTF8 = joinSections lines := by
  induction lines with
  | nil => rfl
  | cons line lines ih =>
    rw [List.forall_mem_cons] at h
    rw [List.map_cons, String.join_cons, String.toUTF8_eq_toByteArray, String.toByteArray_append,
      ← String.toUTF8_eq_toByteArray, ← String.toUTF8_eq_toByteArray, toUTF8_decodeSection h.1,
      ih h.2, joinSections]

/-- Nothing is lost in the other sections, so that one of them makes the text longer. -/
theorem size_joinSections_le (lines : List ByteArray) :
    (joinSections lines).size ≤ (String.join (lines.map decodeSection)).utf8ByteSize := by
  induction lines with
  | nil => exact Nat.zero_le _
  | cons line lines ih =>
    rw [joinSections, ByteArray.size_append, List.map_cons, String.join_cons,
      String.utf8ByteSize_append]
    exact add_le_add (size_le_utf8ByteSize_decodeSection line) ih

theorem isValidUTF8_of_utf8ByteSize_join {lines : List ByteArray}
    (h : (String.join (lines.map decodeSection)).utf8ByteSize = (joinSections lines).size) :
    ∀ line ∈ lines, line.IsValidUTF8 := by
  induction lines with
  | nil => exact List.forall_mem_nil _
  | cons line lines ih =>
    rw [joinSections, ByteArray.size_append, List.map_cons, String.join_cons,
      String.utf8ByteSize_append] at h
    have hline := size_le_utf8ByteSize_decodeSection line
    have hlines := size_joinSections_le lines
    refine List.forall_mem_cons.mpr ⟨?_, ih (by omega)⟩
    by_contra hinvalid
    have hlonger := size_lt_utf8ByteSize_decodeSection hinvalid
    omega

/-- **A text that was cut into sections comes back exactly if every section is a text.** -/
theorem decodedEvents_sections_eq_iff {lines : List ByteArray} {text : String}
    (h : joinSections lines = text.toUTF8) :
    decodedEvents (.sections lines) = .ok text ↔ ∀ line ∈ lines, line.IsValidUTF8 := by
  rw [decodedEvents_sections, Except.ok.injEq]
  constructor
  · rintro rfl
    exact isValidUTF8_of_utf8ByteSize_join (congrArg ByteArray.size h).symm
  · intro hvalid
    rw [← String.toByteArray_inj, ← String.toUTF8_eq_toByteArray, toUTF8_join hvalid, h,
      String.toUTF8_eq_toByteArray]

theorem decodedEvents_sections_two :
    decodedEvents (.sections ["é".toUTF8, "t".toUTF8]) = .ok "ét" ↔
      ∀ line ∈ ["é".toUTF8, "t".toUTF8], line.IsValidUTF8 :=
  decodedEvents_sections_eq_iff (by decide)

/-- The two bytes of a character are sent in different sections. -/
theorem decodedEvents_sections_cut :
    joinSections [⟨#[0xc3]⟩, ⟨#[0xa9]⟩] = "é".toUTF8 ∧
      decodedEvents (.sections [⟨#[0xc3]⟩, ⟨#[0xa9]⟩]) ≠ .ok "é" := by
  refine ⟨by decide, fun h ↦ ?_⟩
  rw [decodedEvents_sections, Except.ok.injEq] at h
  have hvalid := isValidUTF8_of_utf8ByteSize_join (congrArg String.utf8ByteSize h)
  exact absurd (hvalid ⟨#[0xc3]⟩ (by simp)) (by decide)

/-- Sections that are texts are handled as the message in one piece is. -/
theorem selectElements_sections {handler : EventHubConsumerHandler} {services : HandlerServices}
    {lines : List ByteArray} (h : ∀ line ∈ lines, line.IsValidUTF8) :
    handler.selectElements services (.sections lines) =
      handler.selectElements services (.bytes (joinSections lines)) := by
  rw [selectElements, selectElements, decodedEvents_sections, ← toUTF8_join h,
    decodedEvents_toUTF8]

end EventHubConsumerHandler

end MsSecurity
