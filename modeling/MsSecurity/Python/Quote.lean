import MsSecurity.Python.UrlPath

/-!
# Quoting

`quote_plus` writes a text in ASCII: the letters, the digits and four marks stay, a space becomes
`+`, and any other character becomes the escapes of its bytes. `unquote` reads escapes back, and
nothing else. So the one is undone by the other but for the spaces, which come back as `+`
(`unquote_quotePlus`).
-/

namespace MsSecurity

/-! ## Quoting a text -/

/-- A hexadecimal digit in upper case. -/
def hexDigit (n : ℕ) : Char := if n < 10 then Char.ofNat (48 + n) else Char.ofNat (55 + n)

/-- The escape of a byte. -/
def escapeByte (b : UInt8) : List Char := ['%', hexDigit (b.toNat / 16), hexDigit (b.toNat % 16)]

/-- The characters that are never quoted. -/
def unreserved (c : Char) : Bool := c.isAlphanum || c ∈ ['_', '.', '-', '~']

def quoteChar (c : Char) : List Char :=
  if c = ' ' then ['+']
  else if unreserved c then [c]
  else (String.utf8EncodeChar c).flatMap escapeByte

/-- `quote_plus(text)`. -/
def quotePlus (text : String) : String := String.ofList (text.toList.flatMap quoteChar)

/-! ## Reading it back -/

/-- How many bytes the character takes that begins with this one. -/
def sequenceLength (first : UInt8) : ℕ :=
  if first < 0xc0 then 1 else if first < 0xe0 then 2 else if first < 0xf0 then 3 else 4

/-- Whether a byte may follow the bytes before it in the encoding of a character. -/
def continues : List UInt8 → UInt8 → Bool
  | [], b => b < 0x80 || 0xc2 ≤ b && b ≤ 0xf4
  | [first], b =>
    (if first = 0xe0 then 0xa0 else if first = 0xf0 then 0x90 else 0x80) ≤ b &&
      b ≤ if first = 0xed then 0x9f else if first = 0xf4 then 0x8f else 0xbf
  | _, b => 0x80 ≤ b && b ≤ 0xbf

/-- A sequence that is as long as its first byte says is a character. -/
def complete (sequence : List UInt8) : List Char × List UInt8 :=
  if sequence.length = sequenceLength (sequence.headD 0) then
    (((String.fromUTF8? sequence.toByteArray).getD "").toList, [])
  else ([], sequence)

/-- One more byte: the characters it ends, and the bytes that are not yet one. A sequence that it
does not continue is replaced. -/
def feed (pending : List UInt8) (b : UInt8) : List Char × List UInt8 :=
  if continues pending b then complete (pending ++ [b])
  else
    let replaced := if pending = [] then [] else ['\ufffd']
    if continues [] b then (replaced ++ (complete [b]).1, (complete [b]).2)
    else (replaced ++ ['\ufffd'], [])

/-- The characters of bytes, each longest start of none replaced. -/
def replaceErrors (bytes : List UInt8) : List Char :=
  let (chars, pending) := bytes.foldl
    (fun (chars, pending) b ↦ (chars ++ (feed pending b).1, (feed pending b).2)) ([], [])
  if pending = [] then chars else chars ++ ['\ufffd']

/-- `bytes.decode("utf-8", "replace")`. -/
def decodeReplacing (bytes : List UInt8) : String :=
  (String.fromUTF8? bytes.toByteArray).getD (String.ofList (replaceErrors bytes))

/-- `unquote(text)`. -/
def unquote (text : String) : String := decodeReplacing (percentDecode text.toList)

/-! ## The round trip -/

theorem hexValue_hexDigit {n : ℕ} (h : n < 16) : hexValue (hexDigit n) = some n := by
  have hall : ∀ n < 16, hexValue (hexDigit n) = some n := by decide
  exact hall n h

theorem percentDecode_escapeByte (b : UInt8) (rest : List Char) :
    percentDecode (escapeByte b ++ rest) = b :: percentDecode rest := by
  have hb : b.toNat < 256 := b.toNat_lt
  have hvalue : 16 * (b.toNat / 16) + b.toNat % 16 = b.toNat := Nat.div_add_mod b.toNat 16
  rw [escapeByte, List.cons_append, List.cons_append, List.cons_append, List.nil_append,
    percentDecode_escape (hexValue_hexDigit (by omega)) (hexValue_hexDigit (by omega)), hvalue,
    UInt8.ofNat_toNat]

theorem percentDecode_flatMap_escapeByte (bytes : List UInt8) (rest : List Char) :
    percentDecode (bytes.flatMap escapeByte ++ rest) = bytes ++ percentDecode rest := by
  induction bytes with
  | nil => rfl
  | cons b bytes ih =>
    rw [List.flatMap_cons, List.append_assoc, percentDecode_escapeByte, ih, List.cons_append]

theorem percentDecode_cons_of_ne {c : Char} (h : c ≠ '%') (rest : List Char) :
    percentDecode (c :: rest) = String.utf8EncodeChar c ++ percentDecode rest := by
  rw [percentDecode]
  rintro _ _ _ rfl
  exact absurd rfl h

/-- What a character comes back as. -/
def spaceToPlus (c : Char) : Char := if c = ' ' then '+' else c

theorem percentDecode_quoteChar (c : Char) (rest : List Char) :
    percentDecode (quoteChar c ++ rest) =
      String.utf8EncodeChar (spaceToPlus c) ++ percentDecode rest := by
  rw [quoteChar, spaceToPlus]
  split_ifs with hspace hunreserved
  · exact percentDecode_cons_of_ne (by decide) rest
  · refine percentDecode_cons_of_ne ?_ rest
    rintro rfl
    exact absurd hunreserved (by decide)
  · exact percentDecode_flatMap_escapeByte _ rest

theorem percentDecode_flatMap_quoteChar (text : List Char) :
    percentDecode (text.flatMap quoteChar) = utf8Bytes (text.map spaceToPlus) := by
  induction text with
  | nil => rfl
  | cons c text ih =>
    rw [List.flatMap_cons, percentDecode_quoteChar, ih, List.map_cons, utf8Bytes_cons]

theorem decodeReplacing_utf8Bytes (text : List Char) :
    decodeReplacing (utf8Bytes text) = String.ofList text := by
  have hvalid : (utf8Bytes text).toByteArray.IsValidUTF8 := ByteArray.isValidUTF8_utf8Encode
  have hdecode : String.fromUTF8? (utf8Bytes text).toByteArray = some (String.ofList text) := by
    rw [String.fromUTF8?, dif_pos hvalid]
    rfl
  rw [decodeReplacing, hdecode, Option.getD_some]

/-- **A quoted text comes back with its spaces as `+`.** -/
theorem unquote_quotePlus (text : String) :
    unquote (quotePlus text) = String.ofList (text.toList.map spaceToPlus) := by
  rw [unquote, quotePlus, String.toList_ofList, percentDecode_flatMap_quoteChar,
    decodeReplacing_utf8Bytes]

theorem unquote_quotePlus_eq_iff {text : String} :
    unquote (quotePlus text) = text ↔ ' ' ∉ text.toList := by
  have hchar (c : Char) : spaceToPlus c = c ↔ c ≠ ' ' := by
    rw [spaceToPlus]
    split_ifs with h
    · subst h
      decide
    · exact iff_of_true rfl h
  calc unquote (quotePlus text) = text ↔ text.toList.map spaceToPlus = text.toList.map id := by
        rw [unquote_quotePlus, List.map_id, ← String.toList_inj, String.toList_ofList]
    _ ↔ ∀ c ∈ text.toList, c ≠ ' ' := by
        rw [List.map_inj_left]
        exact forall₂_congr fun c _ ↦ hchar c
    _ ↔ ' ' ∉ text.toList := by
        rw [List.forall_mem_ne']

/-! ## The characters of a quoted text -/

/-- The characters that `quote_plus` writes. -/
def isQuoted (c : Char) : Bool := unreserved c || c ∈ ['+', '%']

theorem isQuoted_hexDigit {n : ℕ} (h : n < 16) : isQuoted (hexDigit n) := by
  have hall : ∀ n < 16, isQuoted (hexDigit n) := by decide
  exact hall n h

theorem isQuoted_of_mem_escapeByte {b : UInt8} {c : Char} (h : c ∈ escapeByte b) : isQuoted c := by
  have hb : b.toNat < 256 := b.toNat_lt
  rw [escapeByte, List.mem_cons, List.mem_cons, List.mem_singleton] at h
  rcases h with rfl | rfl | rfl
  · decide
  · exact isQuoted_hexDigit (by omega)
  · exact isQuoted_hexDigit (by omega)

theorem isQuoted_of_mem_quotePlus {text : String} {c : Char} (h : c ∈ (quotePlus text).toList) :
    isQuoted c := by
  rw [quotePlus, String.toList_ofList] at h
  obtain ⟨d, -, hc⟩ := List.mem_flatMap.mp h
  rw [quoteChar] at hc
  split_ifs at hc with hspace hunreserved
  · rw [List.mem_singleton.mp hc]
    decide
  · rw [List.mem_singleton.mp hc, isQuoted, hunreserved]
    rfl
  · obtain ⟨b, -, hc⟩ := List.mem_flatMap.mp hc
    exact isQuoted_of_mem_escapeByte hc

end MsSecurity
