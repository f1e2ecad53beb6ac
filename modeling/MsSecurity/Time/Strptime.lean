import MsSecurity.Python.Digits
import MsSecurity.Time.Timestamp

/-!
# Dates as `strptime` reads them

`datetime.strptime` makes a pattern of its format and reads the fields of its first match. The
pattern for `%Y-%m-%dT%H:%M:%SZ` admits many texts of one instant: a field of two digits may have
one, a digit may be of any script, the letters may be small, and a day below ten may have a space in
front. All but the last sort after the canonical text of any earlier instant, and the space is the
one character that sorts before what stands in its place (`text_lt_of_strptime`).
-/

namespace MsSecurity

/-! ## The pattern -/

/-- A class of characters in the pattern. -/
inductive DigitClass
  /-- `[lo-hi]`. -/
  | range (lo hi : ℕ)
  /-- `\d`. -/
  | decimal
  | space
  deriving DecidableEq

/-- The digit a character of the class is read as; `int` drops the space. -/
def DigitClass.digit? : DigitClass → Char → Option ℕ
  | range lo hi, c => if lo + 48 ≤ c.toNat ∧ c.toNat ≤ hi + 48 then some (c.toNat - 48) else none
  | decimal, c => decimalDigit? c
  | space, c => if c = ' ' then some 0 else none

/-- A directive, as its alternatives in the order they are tried, and the literal after it. -/
structure PatternField where
  alternatives : List (List DigitClass)
  literal : Char

/-- `%Y-%m-`. -/
def yearMonthFields : List PatternField :=
  [⟨[[.decimal, .decimal, .decimal, .decimal]], '-'⟩,
    ⟨[[.range 1 1, .range 0 2], [.range 0 0, .range 1 9], [.range 1 9]], '-'⟩]

/-- `%dT`. -/
def dayField : PatternField :=
  ⟨[[.range 3 3, .range 0 1], [.range 1 2, .decimal], [.range 0 0, .range 1 9], [.range 1 9],
    [.space, .range 1 9]], 'T'⟩

/-- `%H:%M:%SZ`. -/
def clockFields : List PatternField :=
  [⟨[[.range 2 2, .range 0 3], [.range 0 1, .decimal], [.decimal]], ':'⟩,
    ⟨[[.range 0 5, .decimal], [.decimal]], ':'⟩,
    ⟨[[.range 6 6, .range 0 1], [.range 0 5, .decimal], [.decimal]], 'Z'⟩]

def datePattern : List PatternField := yearMonthFields ++ dayField :: clockFields

/-- The number that digits are read as. -/
def numeral : List ℕ → ℕ
  | [] => 0
  | d :: ds => d * 10 ^ ds.length + numeral ds

/-- The digits of an alternative at the front of a text, and the rest. -/
def matchDigits : List DigitClass → List Char → Option (List ℕ × List Char)
  | [], text => some ([], text)
  | _ :: _, [] => none
  | digitClass :: classes, c :: text => do
    let d ← digitClass.digit? c
    let (ds, rest) ← matchDigits classes text
    return (d :: ds, rest)

/-- What an alternative and the literal match at the front of a text. The case of the literal is
ignored. -/
def matchAlternative (literal : Char) (text : List Char) (classes : List DigitClass) :
    Option (ℕ × List Char) :=
  match matchDigits classes text with
  | some (ds, c :: rest) => if c.toLower = literal.toLower then some (numeral ds, rest) else none
  | _ => none

/-- All matches at the front of a text, in the order the pattern tries them: the fields, and the
rest of the text. -/
def matchPattern : List PatternField → List Char → List (List ℕ × List Char)
  | [], text => [([], text)]
  | field :: fields, text =>
    (field.alternatives.filterMap (matchAlternative field.literal text)).flatMap fun (n, rest) ↦
      (matchPattern fields rest).map fun (ns, rest) ↦ (n :: ns, rest)

/-- `datetime`, which has no second 60. -/
def datetime : List ℕ → Option Timestamp
  | [year, month, day, hour, minute, second] =>
    if h : (1 ≤ year ∧ year < 10000) ∧ (1 ≤ month ∧ month ≤ 12) ∧
        (1 ≤ day ∧ day ≤ daysInMonth year month) ∧ hour < 24 ∧ minute < 60 ∧ second < 60 then
      some {
        year := year
        month := month
        day := day
        hour := hour
        minute := minute
        second := second
        fraction := []
        year_lt := h.1.2
        month_mem := h.2.1
        day_mem := h.2.2.1
        hour_lt := h.2.2.2.1
        minute_lt := h.2.2.2.2.1
        second_le := h.2.2.2.2.2.le
        fraction_length := Nat.zero_le 7 }
    else none
  | _ => none

/-- `datetime.strptime(text, "%Y-%m-%dT%H:%M:%SZ")`; `none` where it raises `ValueError`. -/
def strptime (text : String) : Option Timestamp :=
  match matchPattern datePattern text.toList with
  | (fields, []) :: _ => datetime fields
  | _ => none

theorem whole_of_datetime {fields : List ℕ} {t : Timestamp} (h : datetime fields = some t) :
    t.whole = fields ∧ t.fraction = [] := by
  unfold datetime at h
  split at h
  · split_ifs at h
    obtain rfl := Option.some.inj h
    exact ⟨rfl, rfl⟩
  · cases h

theorem mem_matchPattern_of_strptime {text : String} {t : Timestamp} (h : strptime text = some t) :
    (t.whole, []) ∈ matchPattern datePattern text.toList ∧ t.fraction = [] := by
  rw [strptime] at h
  split at h
  · rename_i fields tail hmatch
    obtain ⟨hwhole, hfraction⟩ := whole_of_datetime h
    rw [hmatch, hwhole]
    exact ⟨List.mem_cons_self, hfraction⟩
  · cases h

/-! ## Texts that sort after others, whatever follows -/

/-- `a` sorts after `b`, whatever follows either of them. -/
def Over (a b : List Char) : Prop := ∀ x y, b ++ y < a ++ x

section Over

variable {a b c d : List Char}

theorem Over.append (h : Over a b) (c d : List Char) : Over (a ++ c) (b ++ d) := fun x y ↦ by
  rw [List.append_assoc, List.append_assoc]
  exact h _ _

theorem Over.append_left (h : Over a b) (c : List Char) : Over (c ++ a) (c ++ b) := fun x y ↦ by
  rw [List.append_assoc, List.append_assoc, append_lt_append_iff rfl]
  exact Or.inr ⟨rfl, h x y⟩

theorem over_cons_of_lt {x y : Char} (h : y < x) : Over (x :: a) (y :: b) := fun _ _ ↦
  List.cons_lt_cons_iff.mpr (Or.inl h)

theorem over_cons_self (x : Char) (h : Over a b) : Over (x :: a) (x :: b) := h.append_left [x]

/-- Equal parts leave it to what follows them. -/
theorem Over.append_of_eq_or (h : a = b ∨ Over a b) (h' : Over c d) : Over (a ++ c) (b ++ d) := by
  rcases h with rfl | h
  · exact h'.append_left a
  · exact h.append c d

end Over

/-! ## Numerals -/

/-- A character that is read as a digit: the one of ASCII, or one that comes after all of them. -/
structure Spells (c : Char) (d : ℕ) : Prop where
  lt : d < 10
  eq_or : c = Nat.digitChar d ∨ '9' < c

theorem digitChar_le_nine : ∀ d < 10, Nat.digitChar d ≤ '9' := by decide

theorem Spells.over_of_lt {c : Char} {d v : ℕ} (h : Spells c d) (hv : v < d) (a b : List Char) :
    Over (c :: a) (Nat.digitChar v :: b) := by
  have hlt : ∀ d < 10, ∀ v < d, Nat.digitChar v < Nat.digitChar d := by decide
  refine over_cons_of_lt ?_
  rcases h.eq_or with rfl | hc
  · exact hlt d h.lt v hv
  · exact lt_of_le_of_lt (digitChar_le_nine v (hv.trans h.lt)) hc

theorem spells_decimalDigit? {c : Char} {d : ℕ} (h : decimalDigit? c = some d) : Spells c d := by
  refine ⟨decimalDigit?_lt h, ?_⟩
  obtain ⟨first, hfind, rfl⟩ := Option.map_eq_some_iff.mp h
  have hrange := List.find?_some hfind
  have hall : ∀ first ∈ decimalZeros, first = 48 ∨ 58 ≤ first := by decide
  simp only [decide_eq_true_eq] at hrange
  rcases hall first (List.mem_of_find?_eq_some hfind) with rfl | hlarge
  · refine Or.inl ?_
    have hascii : ∀ n < 58, 48 ≤ n → Char.ofNat n = Nat.digitChar (n - 48) := by decide
    have hc := hascii c.toNat hrange.2 hrange.1
    rwa [Char.ofNat_toNat] at hc
  · refine Or.inr (Char.lt_def.mpr (UInt32.lt_iff_toNat_lt.mpr ?_))
    exact lt_of_lt_of_le (by decide) (hlarge.trans hrange.1)

theorem spells_of_digit? {digitClass : DigitClass} {c : Char} {d : ℕ} (hclass : digitClass ≠ .space)
    (hhi : ∀ lo hi, digitClass = .range lo hi → hi < 10) (h : digitClass.digit? c = some d) :
    Spells c d := by
  cases digitClass with
  | space => exact absurd rfl hclass
  | decimal => exact spells_decimalDigit? h
  | range lo hi =>
    rw [DigitClass.digit?] at h
    split_ifs at h with hrange
    obtain rfl := Option.some.inj h
    have hle : 48 ≤ c.toNat := (Nat.le_add_left 48 lo).trans hrange.1
    have hge : c.toNat ≤ 57 := by
      have hhi := hhi lo hi rfl
      omega
    refine spells_decimalDigit? (decimalDigit?_of_isDigit ?_)
    rw [Char.isDigit, Bool.and_eq_true, decide_eq_true_eq, decide_eq_true_eq]
    exact ⟨UInt32.le_iff_toNat_le.mpr hle, UInt32.le_iff_toNat_le.mpr hge⟩

theorem numeral_lt_of_spells {raw : List Char} {ds : List ℕ} (h : List.Forall₂ Spells raw ds) :
    numeral ds < 10 ^ raw.length := by
  induction h with
  | nil => exact Nat.one_pos
  | @cons c d raw ds hc hrest ih =>
    rw [numeral, List.length_cons, pow_succ, ← hrest.length_eq]
    have hfirst : d * 10 ^ raw.length ≤ 9 * 10 ^ raw.length :=
      Nat.mul_le_mul_right _ (Nat.le_of_lt_succ hc.lt)
    omega

/-- Digits that are read as a number at least `v` are the canonical digits of `v`, or sort after
these. -/
theorem eq_or_over_of_spells {raw : List Char} {ds : List ℕ} (h : List.Forall₂ Spells raw ds)
    {v : ℕ} (hv : v ≤ numeral ds) :
    raw = padDigits raw.length v ∧ v = numeral ds ∨ Over raw (padDigits raw.length v) := by
  induction h generalizing v with
  | nil => exact Or.inl ⟨rfl, Nat.le_zero.mp hv⟩
  | @cons c d raw ds hc hrest ih =>
    have hlength : ds.length = raw.length := hrest.length_eq.symm
    rw [numeral, hlength] at hv
    have hlt := numeral_lt_of_spells hrest
    have hpos : 0 < 10 ^ raw.length := Nat.pow_pos (by decide)
    have hdiv : v / 10 ^ raw.length ≤ d := by
      rw [← Nat.lt_succ_iff, Nat.div_lt_iff_lt_mul hpos, Nat.succ_mul]
      omega
    rw [List.length_cons, padDigits]
    rcases hdiv.lt_or_eq with hdiv | hdiv
    · exact Or.inr (hc.over_of_lt hdiv _ _)
    · have hmod := Nat.div_add_mod v (10 ^ raw.length)
      rw [hdiv, Nat.mul_comm] at hmod
      rw [hdiv]
      rcases hc.eq_or with rfl | hc'
      · rcases ih (v := v % 10 ^ raw.length) (by omega) with ⟨hraw, hvalue⟩ | hover
        · refine Or.inl ⟨congrArg _ hraw, ?_⟩
          rw [numeral, hlength, ← hvalue, hmod]
        · exact Or.inr (over_cons_self _ hover)
      · exact Or.inr (over_cons_of_lt (lt_of_le_of_lt (digitChar_le_nine d hc.lt) hc'))

/-- A single digit in the place of two sorts after them, if it is not zero or what follows it comes
after the digits. -/
theorem Spells.over_padDigits_two {c : Char} {d v : ℕ} (h : Spells c d) (hv : v ≤ d) {next : Char}
    (hnext : '9' < next ∨ 1 ≤ d) (a b : List Char) :
    Over (c :: next :: a) (padDigits 2 v ++ b) := by
  have hten : v / 10 ^ 1 = 0 := Nat.div_eq_of_lt (lt_of_le_of_lt hv h.lt)
  rw [padDigits, hten, List.cons_append]
  rcases Nat.eq_zero_or_pos d with rfl | hpos
  · rcases h.eq_or with rfl | hc
    · refine over_cons_self _ (over_cons_of_lt ?_)
      refine lt_of_le_of_lt (digitChar_le_nine _ ?_) (hnext.resolve_right (Nat.not_succ_le_zero 0))
      exact (Nat.div_le_self _ _).trans_lt (Nat.mod_lt v (by decide))
    · exact over_cons_of_lt (lt_of_le_of_lt (digitChar_le_nine 0 (by decide)) hc)
  · exact h.over_of_lt hpos _ _

/-! ## What a match sorts after -/

/-- The class is one of digits. -/
def DigitClass.IsDigits : DigitClass → Prop
  | range _ hi => hi < 10
  | decimal => True
  | space => False

/-- The alternative is as wide as the field, or it is one digit in the place of two. -/
def Fits (literal : Char) (width : ℕ) (classes : List DigitClass) : Prop :=
  (∀ digitClass ∈ classes, digitClass.IsDigits) ∧ (classes.length = width ∨
    width = 2 ∧ classes.length = 1 ∧ ('9' < literal ∨ classes = [.range 1 9]))

namespace PatternField

/-- The field as it is written canonically, as wide as its first alternative. -/
def format (field : PatternField) : ℕ × List Char :=
  ((field.alternatives.headD []).length, [field.literal])

/-- Every alternative fits the field. -/
def Regular (field : PatternField) : Prop :=
  ∀ classes ∈ field.alternatives, Fits field.literal field.format.1 classes

end PatternField

/-- The text up to `rest` was read as `ns`: it is the canonical text of numbers that are not greater
only if these are `ns`, and sorts after it otherwise. -/
def Dominates (text rest : List Char) (ns : List ℕ) (fmt : FieldFormat) : Prop :=
  ∃ raw, text = raw ++ rest ∧ fmt.length = ns.length ∧ ∀ vs, FitsFormat fmt vs → vs ≤ ns →
    raw = renderFields fmt vs ∧ vs = ns ∨ Over raw (renderFields fmt vs)

theorem renderFields_singleton (w v : ℕ) (sep : List Char) :
    renderFields [(w, sep)] [v] = padDigits w v ++ sep := by
  simp [renderFields]

theorem renderFields_append {fmt fmt' : FieldFormat} {vs vs' : List ℕ} (h : FitsFormat fmt vs) :
    renderFields (fmt ++ fmt') (vs ++ vs') = renderFields fmt vs ++ renderFields fmt' vs' := by
  induction h with
  | nil => rfl
  | @cons f v fmt vs _ _ ih =>
    obtain ⟨w, sep⟩ := f
    rw [List.cons_append, List.cons_append, renderFields, renderFields, ih, List.append_assoc,
      List.append_assoc]

theorem append_le_append {a b s t : List ℕ} (h : a.length = b.length) (hle : a ++ s ≤ b ++ t) :
    a < b ∨ a = b ∧ s ≤ t := by
  rcases hle.lt_or_eq with hlt | heq
  · exact ((append_lt_append_iff h).mp hlt).imp_right fun ⟨hab, hst⟩ ↦ ⟨hab, hst.le⟩
  · obtain ⟨hab, hst⟩ := List.append_inj heq h
    exact Or.inr ⟨hab, hst.le⟩

theorem Dominates.append {text mid rest : List Char} {ns ns' : List ℕ} {fmt fmt' : FieldFormat}
    (h : Dominates text mid ns fmt) (h' : Dominates mid rest ns' fmt') :
    Dominates text rest (ns ++ ns') (fmt ++ fmt') := by
  obtain ⟨raw, rfl, hlength, hfront⟩ := h
  obtain ⟨raw', rfl, hlength', hback⟩ := h'
  refine ⟨raw ++ raw', (List.append_assoc _ _ _).symm, ?_, fun vs hfits hle ↦ ?_⟩
  · rw [List.length_append, List.length_append, hlength, hlength']
  have hfits₁ := List.forall₂_take fmt.length hfits
  have hfits₂ := List.forall₂_drop fmt.length hfits
  rw [List.take_left] at hfits₁
  rw [List.drop_left] at hfits₂
  rw [← List.take_append_drop fmt.length vs] at hle ⊢
  set vs₁ := vs.take fmt.length
  set vs₂ := vs.drop fmt.length
  rw [renderFields_append hfits₁]
  rcases append_le_append (hfits₁.length_eq.symm.trans hlength) hle with hlt | ⟨heq, hle'⟩
  · refine Or.inr (Over.append ?_ _ _)
    exact (hfront vs₁ hfits₁ hlt.le).resolve_left fun ⟨_, hvs⟩ ↦ hlt.ne hvs
  · have hraw := hfront vs₁ hfits₁ heq.le
    rcases hback vs₂ hfits₂ hle' with ⟨hraw', hvs'⟩ | hover
    · rcases hraw with ⟨hraw, hvs⟩ | hover
      · exact Or.inl ⟨by rw [← hraw, ← hraw'], by rw [hvs, hvs']⟩
      · exact Or.inr (hover.append _ _)
    · exact Or.inr (Over.append_of_eq_or (hraw.imp_left And.left) hover)

theorem digit?_spells {digitClass : DigitClass} {c : Char} {d : ℕ} (h : digitClass.IsDigits)
    (hdigit : digitClass.digit? c = some d) : Spells c d := by
  refine spells_of_digit? ?_ ?_ hdigit
  · rintro rfl
    exact h
  · rintro lo hi rfl
    exact h

theorem spells_of_matchDigits {classes : List DigitClass} {text rest : List Char} {ds : List ℕ}
    (hclasses : ∀ digitClass ∈ classes, digitClass.IsDigits)
    (h : matchDigits classes text = some (ds, rest)) :
    ∃ raw, text = raw ++ rest ∧ raw.length = classes.length ∧ List.Forall₂ Spells raw ds := by
  induction classes generalizing text ds with
  | nil =>
    obtain ⟨rfl, rfl⟩ := Prod.mk.inj (Option.some.inj h)
    exact ⟨[], rfl, rfl, .nil⟩
  | cons digitClass classes ih =>
    rw [List.forall_mem_cons] at hclasses
    cases text with
    | nil => cases h
    | cons c text =>
      rw [matchDigits] at h
      obtain ⟨d, hd, h⟩ := Option.bind_eq_some_iff.mp h
      obtain ⟨⟨ds', rest'⟩, hrest, h⟩ := Option.bind_eq_some_iff.mp h
      obtain ⟨rfl, rfl⟩ := Prod.mk.inj (Option.some.inj h)
      obtain ⟨raw, rfl, hlength, hspells⟩ := ih hclasses.2 hrest
      exact ⟨c :: raw, rfl, congrArg _ hlength, .cons (digit?_spells hclasses.1 hd) hspells⟩

theorem matchAlternative_eq_some {literal : Char} {text rest : List Char}
    {classes : List DigitClass} {n : ℕ}
    (h : matchAlternative literal text classes = some (n, rest)) :
    ∃ ds c, matchDigits classes text = some (ds, c :: rest) ∧ c.toLower = literal.toLower ∧
      n = numeral ds := by
  unfold matchAlternative at h
  split at h
  · rename_i ds c rest' hdigits
    split_ifs at h with hc
    obtain ⟨rfl, rfl⟩ := Prod.mk.inj (Option.some.inj h)
    exact ⟨ds, c, hdigits, hc, rfl⟩
  · cases h

/-- The literals of the pattern; a small letter sorts after its capital. -/
def literals : List Char := ['-', 'T', ':', 'Z']

theorem eq_or_lt_of_toLower_eq {c literal : Char} (hliteral : literal ∈ literals)
    (h : c.toLower = literal.toLower) : c = literal ∨ literal < c := by
  have hsmall : ∀ n < 128, literals.Forall fun literal ↦ (Char.ofNat n).toLower = literal.toLower →
      Char.ofNat n = literal ∨ literal < Char.ofNat n := by decide
  rcases Nat.lt_or_ge c.toNat 128 with hc | hc
  · have hascii := List.forall_iff_forall_mem.mp (hsmall c.toNat hc) literal hliteral
    rw [Char.ofNat_toNat] at hascii
    exact hascii h
  · have hall : ∀ literal ∈ literals, literal.toNat < 128 :=
      List.forall_iff_forall_mem.mp (by decide)
    refine Or.inr (Char.lt_def.mpr (UInt32.lt_iff_toNat_lt.mpr ?_))
    exact lt_of_lt_of_le (hall literal hliteral) hc

theorem one_le_of_matchDigits {text rest : List Char} {ds : List ℕ} {d : ℕ}
    (h : matchDigits [.range 1 9] text = some (d :: ds, rest)) : 1 ≤ d := by
  cases text with
  | nil => cases h
  | cons c text =>
    rw [matchDigits] at h
    obtain ⟨d', hd', h⟩ := Option.bind_eq_some_iff.mp h
    rw [DigitClass.digit?] at hd'
    split_ifs at hd' with hrange
    obtain rfl := Option.some.inj hd'
    have hdigit := (List.cons.inj (Prod.mk.inj (Option.some.inj h)).1).1
    omega

theorem dominates_of_matchAlternative {literal : Char} {width : ℕ} {text rest : List Char}
    {classes : List DigitClass} {n : ℕ} (hliteral : literal ∈ literals)
    (hfits : Fits literal width classes)
    (h : matchAlternative literal text classes = some (n, rest)) :
    Dominates text rest [n] [(width, [literal])] := by
  obtain ⟨ds, c, hdigits, hc, rfl⟩ := matchAlternative_eq_some h
  obtain ⟨raw, rfl, hlength, hspells⟩ := spells_of_matchDigits hfits.1 hdigits
  have hsep := eq_or_lt_of_toLower_eq hliteral hc
  refine ⟨raw ++ [c], by rw [List.append_assoc, List.singleton_append], rfl, ?_⟩
  intro vs hvs hle
  obtain ⟨v, vs, hv, hnil, rfl⟩ := List.forall₂_cons_left_iff.mp hvs
  obtain rfl := List.forall₂_nil_left_iff.mp hnil
  have hle : v ≤ numeral ds := by
    by_contra hlt
    exact absurd hle (not_le.mpr (List.cons_lt_cons_iff.mpr (Or.inl (not_le.mp hlt))))
  rw [renderFields_singleton]
  rcases hfits.2 with hwidth | ⟨rfl, hone, hshort⟩
  · have hequal := eq_or_over_of_spells hspells hle
    rw [hlength, hwidth] at hequal
    rcases hsep with rfl | hsep
    · rcases hequal with ⟨hraw, hvalue⟩ | hover
      · exact Or.inl ⟨by rw [hraw], by rw [hvalue]⟩
      · exact Or.inr (hover.append _ _)
    · exact Or.inr (Over.append_of_eq_or (hequal.imp_left And.left) (over_cons_of_lt hsep))
  · -- one digit, in the place of two
    refine Or.inr ?_
    rw [hone] at hlength
    obtain ⟨digit, rfl⟩ := List.length_eq_one_iff.mp hlength
    obtain ⟨d, ds, hd, hnil, rfl⟩ := List.forall₂_cons_left_iff.mp hspells
    obtain rfl := List.forall₂_nil_left_iff.mp hnil
    have hnumeral : numeral [d] = d := by rw [numeral, numeral, List.length_nil, pow_zero]; omega
    rw [hnumeral] at hle
    refine hd.over_padDigits_two hle ?_ [] [literal]
    rcases hshort with hnine | rfl
    · refine Or.inl ?_
      rcases hsep with rfl | hsep
      · exact hnine
      · exact hnine.trans hsep
    · exact Or.inr (one_le_of_matchDigits hdigits)

theorem mem_matchPattern_cons_iff {field : PatternField} {fields : List PatternField}
    {text rest : List Char} {ns : List ℕ} : (ns, rest) ∈ matchPattern (field :: fields) text ↔
      ∃ classes ∈ field.alternatives, ∃ n mid ns', ns = n :: ns' ∧
        matchAlternative field.literal text classes = some (n, mid) ∧
        (ns', rest) ∈ matchPattern fields mid := by
  rw [matchPattern, List.mem_flatMap]
  constructor
  · rintro ⟨⟨n, mid⟩, hfield, hrest⟩
    obtain ⟨classes, hclasses, halternative⟩ := List.mem_filterMap.mp hfield
    obtain ⟨⟨ns', rest'⟩, hmem, heq⟩ := List.mem_map.mp hrest
    obtain ⟨rfl, rfl⟩ := Prod.mk.inj heq
    exact ⟨classes, hclasses, n, mid, ns', rfl, halternative, hmem⟩
  · rintro ⟨classes, hclasses, n, mid, ns', rfl, halternative, hmem⟩
    exact ⟨(n, mid), List.mem_filterMap.mpr ⟨classes, hclasses, halternative⟩,
      List.mem_map.mpr ⟨(ns', rest), hmem, rfl⟩⟩

theorem exists_of_mem_matchPattern_append {fields fields' : List PatternField}
    {text rest : List Char} {ns : List ℕ} (h : (ns, rest) ∈ matchPattern (fields ++ fields') text) :
    ∃ ns₁ mid ns₂, ns = ns₁ ++ ns₂ ∧ (ns₁, mid) ∈ matchPattern fields text ∧
      (ns₂, rest) ∈ matchPattern fields' mid := by
  induction fields generalizing text ns with
  | nil => exact ⟨[], text, ns, rfl, List.mem_singleton_self _, h⟩
  | cons field fields ih =>
    obtain ⟨classes, hclasses, n, mid, ns', rfl, halternative, hmem⟩ :=
      mem_matchPattern_cons_iff.mp h
    obtain ⟨ns₁, mid', ns₂, rfl, hfront, hback⟩ := ih hmem
    exact ⟨n :: ns₁, mid', ns₂, rfl,
      mem_matchPattern_cons_iff.mpr ⟨classes, hclasses, n, mid, ns₁, rfl, halternative, hfront⟩,
      hback⟩

theorem suffix_of_matchDigits {classes : List DigitClass} {text rest : List Char} {ds : List ℕ}
    (h : matchDigits classes text = some (ds, rest)) : rest <:+ text := by
  induction classes generalizing text ds with
  | nil =>
    obtain ⟨-, rfl⟩ := Prod.mk.inj (Option.some.inj h)
    exact List.suffix_rfl
  | cons digitClass classes ih =>
    cases text with
    | nil => cases h
    | cons c text =>
      rw [matchDigits] at h
      obtain ⟨d, -, h⟩ := Option.bind_eq_some_iff.mp h
      obtain ⟨⟨ds', rest'⟩, hrest, h⟩ := Option.bind_eq_some_iff.mp h
      obtain ⟨-, rfl⟩ := Prod.mk.inj (Option.some.inj h)
      exact (ih hrest).trans (List.suffix_cons c text)

theorem exists_suffix_of_mem_matchPattern (fields : List PatternField) {last : PatternField}
    {text rest : List Char} {ns : List ℕ} (h : (ns, rest) ∈ matchPattern (fields ++ [last]) text) :
    ∃ c, c.toLower = last.literal.toLower ∧ c :: rest <:+ text := by
  induction fields generalizing text ns with
  | nil =>
    obtain ⟨classes, -, n, mid, ns', rfl, halternative, hmem⟩ := mem_matchPattern_cons_iff.mp h
    obtain ⟨ds, c, hdigits, hc, -⟩ := matchAlternative_eq_some halternative
    obtain ⟨-, rfl⟩ := Prod.mk.inj (List.mem_singleton.mp hmem)
    exact ⟨c, hc, suffix_of_matchDigits hdigits⟩
  | cons field fields ih =>
    obtain ⟨classes, -, n, mid, ns', rfl, halternative, hmem⟩ := mem_matchPattern_cons_iff.mp h
    obtain ⟨ds, c, hdigits, -⟩ := matchAlternative_eq_some halternative
    obtain ⟨c', hc', hsuffix⟩ := ih hmem
    exact ⟨c', hc', hsuffix.trans
      ((List.suffix_cons c mid).trans (suffix_of_matchDigits hdigits))⟩

/-- What regular fields match. -/
theorem dominates_of_mem_matchPattern {fields : List PatternField}
    (hfields : ∀ field ∈ fields, field.literal ∈ literals ∧ field.Regular)
    {text rest : List Char} {ns : List ℕ} (h : (ns, rest) ∈ matchPattern fields text) :
    Dominates text rest ns (fields.map PatternField.format) := by
  induction fields generalizing text ns with
  | nil =>
    obtain ⟨rfl, rfl⟩ := Prod.mk.inj (List.mem_singleton.mp h)
    refine ⟨[], rfl, rfl, fun vs hfits _ ↦ Or.inl ?_⟩
    obtain rfl := List.forall₂_nil_left_iff.mp hfits
    exact ⟨rfl, rfl⟩
  | cons field fields ih =>
    rw [List.forall_mem_cons] at hfields
    obtain ⟨⟨hliteral, hregular⟩, hfields⟩ := hfields
    obtain ⟨classes, hclasses, n, mid, ns', rfl, halternative, hmem⟩ :=
      mem_matchPattern_cons_iff.mp h
    exact (dominates_of_matchAlternative hliteral (hregular classes hclasses)
      halternative).append (ih hfields hmem)

/-! ## Dates -/

instance : DecidablePred DigitClass.IsDigits := fun digitClass ↦ match digitClass with
  | .range _ hi => inferInstanceAs (Decidable (hi < 10))
  | .decimal => .isTrue trivial
  | .space => .isFalse id

instance (literal : Char) (width : ℕ) : DecidablePred (Fits literal width) := fun classes ↦
  inferInstanceAs (Decidable ((∀ digitClass ∈ classes, digitClass.IsDigits) ∧
    (classes.length = width ∨
      width = 2 ∧ classes.length = 1 ∧ ('9' < literal ∨ classes = [.range 1 9]))))

instance : DecidablePred PatternField.Regular := fun field ↦
  inferInstanceAs (Decidable (∀ classes ∈ field.alternatives,
    Fits field.literal field.format.1 classes))

/-- The canonical format of the year and the month. -/
def yearMonthFormat : FieldFormat := [(4, ['-']), (2, ['-'])]

/-- The canonical format of the other fields. -/
def dayClockFormat : FieldFormat := [(2, ['T']), (2, [':']), (2, [':']), (2, ['Z'])]

/-- Without a space in front, the day is read like the fields after it. -/
theorem dominates_of_head?_ne_space {text rest : List Char} {ns : List ℕ}
    (h : (ns, rest) ∈ matchPattern (dayField :: clockFields) text)
    (hspace : text.head? ≠ some ' ') : Dominates text rest ns dayClockFormat := by
  obtain ⟨classes, hclasses, n, mid, ns', rfl, halternative, hmem⟩ :=
    mem_matchPattern_cons_iff.mp h
  have hclock : Dominates mid rest ns' (clockFields.map PatternField.format) :=
    dominates_of_mem_matchPattern (by decide) hmem
  have hall : ∀ classes ∈ dayField.alternatives,
      classes = [.space, .range 1 9] ∨ Fits dayField.literal 2 classes := by decide
  rcases hall classes hclasses with rfl | hfits
  · obtain ⟨ds, c, hdigits, -⟩ := matchAlternative_eq_some halternative
    cases text with
    | nil => cases hdigits
    | cons first text =>
      rw [matchDigits] at hdigits
      obtain ⟨d, hd, -⟩ := Option.bind_eq_some_iff.mp hdigits
      rw [DigitClass.digit?] at hd
      split_ifs at hd with hfirst
      exact absurd (congrArg some hfirst) hspace
  · exact (dominates_of_matchAlternative (by decide) hfits halternative).append hclock

/-- A date that can be read ends in `Z`, or in `z`. -/
theorem exists_getLast?_of_strptime {text : String} {t : Timestamp} (h : strptime text = some t) :
    ∃ c, c.toLower = 'z' ∧ text.toList.getLast? = some c := by
  obtain ⟨c, hc, front, hfront⟩ := exists_suffix_of_mem_matchPattern
    (yearMonthFields ++ dayField :: clockFields.take 2)
    (mem_matchPattern_of_strptime h).1
  exact ⟨c, hc, by rw [← hfront, List.getLast?_concat]⟩

namespace Timestamp

/-- A time as `strftime("%Y-%m-%dT%H:%M:%SZ")` writes it. -/
def toSeconds (t : Timestamp) : Timestamp :=
  { t with fraction := [], fraction_length := Nat.zero_le 7 }

theorem toList_text_toSeconds (t : Timestamp) : t.toSeconds.text.toList =
    renderFields yearMonthFormat [t.year, t.month] ++
      renderFields dayClockFormat [t.day, t.hour, t.minute, t.second] := by
  simp [text, toSeconds, renderFields, format, yearMonthFormat, dayClockFormat, whole,
    fractionText]

theorem exists_toList_text_toSeconds (t : Timestamp) : ∃ front d, d < 10 ∧
    t.toSeconds.text.toList = front ++ [Nat.digitChar d] ++ ['Z'] := by
  refine ⟨renderFields yearMonthFormat [t.year, t.month] ++
    (renderFields (dayClockFormat.take 3) [t.day, t.hour, t.minute] ++
      [Nat.digitChar (t.second / 10)]), t.second % 10, Nat.mod_lt _ (by decide), ?_⟩
  rw [toList_text_toSeconds]
  simp [renderFields, dayClockFormat, padDigits]

theorem fits_yearMonthFormat (t : Timestamp) : FitsFormat yearMonthFormat [t.year, t.month] := by
  have hmonth := t.month_mem.2
  refine .cons t.year_lt (.cons ?_ .nil)
  norm_num
  omega

theorem fits_dayClockFormat (t : Timestamp) :
    FitsFormat dayClockFormat [t.day, t.hour, t.minute, t.second] := by
  have hday := t.day_mem.2.trans (daysInMonth_le t.year t.month)
  have hhour := t.hour_lt
  have hminute := t.minute_lt
  have hsecond := t.second_le
  refine .cons ?_ (.cons ?_ (.cons ?_ (.cons ?_ .nil))) <;> norm_num <;> omega

/-- The text begins with the year and the month of a time, and a space. -/
def SpacedDay (now : Timestamp) (text : String) : Prop :=
  renderFields yearMonthFormat [now.year, now.month] ++ [' '] <+: text.toList

instance (now : Timestamp) (text : String) : Decidable (now.SpacedDay text) :=
  inferInstanceAs (Decidable (_ <+: _))

/-- A space sorts before the day of that time. -/
theorem SpacedDay.lt {now : Timestamp} {text : String} (h : now.SpacedDay text) :
    text < now.toSeconds.text := by
  obtain ⟨rest, hrest⟩ := h
  rw [String.lt_iff_toList_lt, ← hrest, toList_text_toSeconds, List.append_assoc,
    append_lt_append_iff rfl]
  refine Or.inr ⟨rfl, List.cons_lt_cons_iff.mpr (Or.inl ?_)⟩
  have hall : ∀ d < 10, ' ' < Nat.digitChar d := by decide
  have hday := now.day_mem.2.trans (daysInMonth_le now.year now.month)
  refine hall _ ?_
  rw [pow_one]
  omega

/-- **Readings of the future.** A text that is read as a later time sorts after the text of `now`,
unless it has the year and the month of `now` and a space in front of the day. -/
theorem text_lt_of_strptime {now t : Timestamp} {text : String} (h : strptime text = some t)
    (hlt : now.whole < t.whole) (hspace : ¬now.SpacedDay text) : now.toSeconds.text < text := by
  obtain ⟨ns₁, mid, ns₂, hwhole, hfront, hback⟩ :=
    exists_of_mem_matchPattern_append (mem_matchPattern_of_strptime h).1
  have hyearMonth : Dominates text.toList mid ns₁ yearMonthFormat :=
    dominates_of_mem_matchPattern (by decide : ∀ field ∈ yearMonthFields, _) hfront
  rw [String.lt_iff_toList_lt, toList_text_toSeconds]
  by_cases hmid : mid.head? = some ' '
  · obtain ⟨raw, htext, hlength, hover⟩ := hyearMonth
    have hle : [now.year, now.month] ≤ ns₁ := by
      have hwhole' : [now.year, now.month] ++ [now.day, now.hour, now.minute, now.second] ≤
          ns₁ ++ ns₂ := hwhole ▸ hlt.le
      exact (append_le_append (hlength : 2 = _) hwhole').elim le_of_lt fun heq ↦ heq.1.le
    rw [htext]
    rcases hover _ now.fits_yearMonthFormat hle with ⟨hraw, -⟩ | hover
    · refine absurd ?_ hspace
      obtain ⟨tail, rfl⟩ := List.head?_eq_some_iff.mp hmid
      rw [SpacedDay, htext, hraw]
      exact ⟨tail, List.append_assoc _ _ _⟩
    · exact hover _ _
  · have hall := hyearMonth.append (dominates_of_head?_ne_space hback hmid)
    obtain ⟨raw, htext, -, hover⟩ := hall
    rw [← hwhole] at hover
    have hfits : FitsFormat (yearMonthFormat ++ dayClockFormat) now.whole :=
      List.rel_append now.fits_yearMonthFormat now.fits_dayClockFormat
    have hafter := (hover _ hfits hlt.le).resolve_left fun ⟨_, heq⟩ ↦ hlt.ne heq
    have hrender : renderFields (yearMonthFormat ++ dayClockFormat) now.whole =
        renderFields yearMonthFormat [now.year, now.month] ++
          renderFields dayClockFormat [now.day, now.hour, now.minute, now.second] :=
      renderFields_append now.fits_yearMonthFormat
    rw [hrender] at hafter
    have hlt' := hafter [] []
    rwa [List.append_nil, ← htext] at hlt'

end Timestamp

end MsSecurity
