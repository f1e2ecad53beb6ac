import MsSecurity.Time.FixedWidth

/-!
# UTC timestamps and their text

`Timestamp` is a UTC ISO-8601 date and time with zero to seven fraction digits, the shape the
Microsoft APIs use for update times and `strftime("%Y-%m-%dT%H:%M:%SZ")` produces without a
fraction. Two orders are in play and they are not the same:

* the **chronological** order `a ≤ b`, on the instants denoted, where `…00.5Z` and `…00.50Z` are
  one instant;
* the **text** order `a.text < b.text`, by code points, which is what the collectors compute with.

They agree between timestamps with equally many fraction digits (`text_lt_text_iff_lt`). Otherwise
they part in one way only: a timestamp that is another one with fraction digits cut off sorts after
it, because the terminator `Z` sorts after the digits and the point.
-/

namespace MsSecurity

/-- The days of a month of the Gregorian calendar. -/
def daysInMonth (year month : ℕ) : ℕ :=
  if month = 2 then
    if year % 4 = 0 ∧ (year % 100 ≠ 0 ∨ year % 400 = 0) then 29 else 28
  else if month = 4 ∨ month = 6 ∨ month = 9 ∨ month = 11 then 30 else 31

/-- A UTC timestamp, to the digits its text gives. -/
@[ext] structure Timestamp where
  year : ℕ
  month : ℕ
  day : ℕ
  hour : ℕ
  minute : ℕ
  second : ℕ
  /-- The fraction digits as they are written, trailing zeros included. -/
  fraction : List (Fin 10)
  year_lt : year < 10000
  month_mem : 1 ≤ month ∧ month ≤ 12
  day_mem : 1 ≤ day ∧ day ≤ daysInMonth year month
  hour_lt : hour < 24
  minute_lt : minute < 60
  /-- A leap second is written as second 60. -/
  second_le : second ≤ 60
  fraction_length : fraction.length ≤ 7

namespace Timestamp

/-! ## The instant and the text -/

/-- The calendar fields down to the second. -/
def whole (t : Timestamp) : List ℕ := [t.year, t.month, t.day, t.hour, t.minute, t.second]

/-- The fraction in units of 100 nanoseconds. -/
def ticks (t : Timestamp) : ℕ := scaled 7 t.fraction

/-- The instant denoted. -/
def instant (t : Timestamp) : List ℕ := t.whole ++ [t.ticks]

/-- Timestamps are compared by their instants. -/
instance : Preorder Timestamp := Preorder.lift instant

instance : DecidableLE Timestamp := fun a b ↦ inferInstanceAs (Decidable (a.instant ≤ b.instant))

instance : DecidableLT Timestamp := fun _ _ ↦ decidable_of_iff _ lt_iff_le_not_ge.symm

/-- `YYYY-MM-DDTHH:MM:SS`. -/
def format : FieldFormat :=
  [(4, ['-']), (2, ['-']), (2, ['T']), (2, [':']), (2, [':']), (2, [])]

/-- The text of a timestamp, ending in `Z`. -/
def text (t : Timestamp) : String :=
  String.ofList (renderFields format t.whole ++ fractionText t.fraction)

theorem daysInMonth_le (year month : ℕ) : daysInMonth year month ≤ 31 := by
  unfold daysInMonth
  split_ifs <;> omega

theorem fits_format (t : Timestamp) : FitsFormat format t.whole := by
  have hday := t.day_mem.2.trans (daysInMonth_le t.year t.month)
  have hmonth := t.month_mem.2
  have hhour := t.hour_lt
  have hminute := t.minute_lt
  have hsecond := t.second_le
  refine .cons t.year_lt (.cons ?_ (.cons ?_ (.cons ?_ (.cons ?_ (.cons ?_ .nil))))) <;>
    norm_num <;> omega

/-! ## The chronological order -/

theorem le_iff_instant {a b : Timestamp} : a ≤ b ↔ a.instant ≤ b.instant := Iff.rfl

theorem lt_iff_instant {a b : Timestamp} : a < b ↔ a.instant < b.instant := by
  rw [lt_iff_le_not_ge, lt_iff_le_not_ge, le_iff_instant, le_iff_instant]

theorem not_lt_iff {a b : Timestamp} : ¬a < b ↔ b ≤ a := by
  rw [lt_iff_instant, not_lt, le_iff_instant]

theorem not_le_iff {a b : Timestamp} : ¬a ≤ b ↔ b < a := by rw [← not_lt_iff, not_not]

theorem lt_iff {a b : Timestamp} :
    a < b ↔ a.whole < b.whole ∨ a.whole = b.whole ∧ a.ticks < b.ticks := by
  rw [lt_iff_instant, instant, instant, append_lt_append_iff (a := a.whole) (b := b.whole) rfl,
    List.cons_lt_cons_iff]
  simp

/-! ## The text order -/

/-- `a` is `b` with some of its fraction digits cut off. -/
def CutOf (a b : Timestamp) : Prop := a.whole = b.whole ∧ MsSecurity.CutOf a.fraction b.fraction

/-- `a` is `b` with fraction digits cut off that were not all zeros, and so denotes an earlier
instant. -/
def Truncates (a b : Timestamp) : Prop := a.CutOf b ∧ a < b

theorem CutOf.le {a b : Timestamp} (h : a.CutOf b) : a ≤ b := by
  rw [← not_lt_iff, lt_iff, h.1]
  rintro (hlt | ⟨-, hlt⟩)
  · exact absurd hlt (lt_irrefl _)
  · exact absurd (scaled_le_of_cut h.2.1 7) (not_le.mpr hlt)

private theorem ofList_lt_ofList_iff (s t : List Char) :
    String.ofList s < String.ofList t ↔ s < t := by
  rw [String.lt_iff_toList_lt, String.toList_ofList, String.toList_ofList]

/-- The text order, on the fields. -/
theorem text_lt_text_iff {a b : Timestamp} : a.text < b.text ↔
    a.whole < b.whole ∨ a.whole = b.whole ∧ DigitsLT a.fraction b.fraction ∨ b.CutOf a := by
  rw [text, text, ofList_lt_ofList_iff, renderFields_append_lt_iff a.fits_format b.fits_format,
    fractionText_lt_iff, and_or_left, CutOf, eq_comm (a := b.whole)]

/-- **Where the two orders part.** The text of `a` sorts before that of `b` when `a` is the earlier
one and is not a truncation of `b`, or when `b` is `a` with fraction digits cut off. -/
theorem text_lt_text_iff_lt_or_cutOf {a b : Timestamp} :
    a.text < b.text ↔ a < b ∧ ¬a.CutOf b ∨ b.CutOf a := by
  rw [text_lt_text_iff]
  constructor
  · rintro (hw | ⟨hw, hd⟩ | hcut)
    · exact Or.inl ⟨lt_iff.mpr (Or.inl hw), fun hcut ↦ absurd hw (hcut.1 ▸ lt_irrefl _)⟩
    · refine Or.inl ⟨lt_iff.mpr (Or.inr ⟨hw, hd.scaled_lt b.fraction_length⟩), fun hcut ↦ ?_⟩
      exact hd.not_cut hcut.2.1
    · exact Or.inr hcut
  · rintro (⟨hlt, hncut⟩ | hcut)
    · rcases lt_iff.mp hlt with hw | ⟨hw, hticks⟩
      · exact Or.inl hw
      · have hne : a.fraction ≠ b.fraction := fun he ↦ by
          rw [ticks, ticks, he] at hticks
          exact absurd hticks (lt_irrefl _)
        rcases digitsLT_trichotomy a.fraction b.fraction with hd | hd | hp | hp
        · exact Or.inr (Or.inl ⟨hw, hd⟩)
        · exact absurd (hd.scaled_lt a.fraction_length) (not_lt.mpr hticks.le)
        · exact absurd ⟨hw, hp, hne⟩ hncut
        · exact absurd (scaled_le_of_cut hp 7) (not_le.mpr hticks)
    · exact Or.inr (Or.inr hcut)

/-- Between timestamps with equally many fraction digits the text order is chronological. -/
theorem text_lt_text_iff_lt {a b : Timestamp} (h : a.fraction.length = b.fraction.length) :
    a.text < b.text ↔ a < b := by
  have hcut : ∀ {x y : Timestamp}, x.fraction.length = y.fraction.length → ¬x.CutOf y :=
    fun hxy hc ↦ hc.2.2 (hc.2.1.eq_of_length hxy)
  rw [text_lt_text_iff_lt_or_cutOf]
  simp [hcut h, hcut h.symm]

theorem Truncates.congr_right {t a b : Timestamp} (h : t.Truncates a) (hab : a ≤ b) (hba : b ≤ a) :
    t.Truncates b := by
  have htb : t < b := lt_of_lt_of_le h.2 hab
  rw [← not_lt_iff, lt_iff, not_or, not_and, not_lt, not_lt] at hab hba
  have hw : a.whole = b.whole := le_antisymm hab.1 hba.1
  have hticks : a.ticks = b.ticks := le_antisymm (hab.2 hw.symm) (hba.2 hw)
  have hcut : t.fraction <+: b.fraction := by
    rcases digitsLT_trichotomy a.fraction b.fraction with hd | hd | hp | hp
    · exact absurd hticks (hd.scaled_lt b.fraction_length).ne
    · exact absurd hticks.symm (hd.scaled_lt a.fraction_length).ne
    · exact h.1.2.1.trans hp
    · rcases List.prefix_or_prefix_of_prefix h.1.2.1 hp with ht | ht
      · exact ht
      · -- `b` would be a prefix of `t`, which is earlier
        have htw : t.whole = b.whole := h.1.1.trans hw
        rcases lt_iff.mp htb with hlt | ⟨-, hlt⟩
        · exact absurd hlt (htw ▸ lt_irrefl _)
        · exact absurd (scaled_le_of_cut ht 7) (not_le.mpr hlt)
  refine ⟨⟨h.1.1.trans hw, hcut, fun he ↦ ?_⟩, htb⟩
  rcases lt_iff.mp htb with hlt | ⟨-, hlt⟩
  · exact absurd hlt ((h.1.1.trans hw) ▸ lt_irrefl _)
  · rw [ticks, ticks, he] at hlt
    exact absurd hlt (lt_irrefl _)

theorem text_injective : Function.Injective text := by
  intro a b h
  have hab : ¬a.text < b.text := h ▸ lt_irrefl _
  have hba : ¬b.text < a.text := h ▸ lt_irrefl _
  rw [text_lt_text_iff, not_or, not_or, not_and, not_lt] at hab hba
  have hw : a.whole = b.whole := le_antisymm hba.1 hab.1
  have hf : a.fraction = b.fraction := by
    rcases digitsLT_trichotomy a.fraction b.fraction with hd | hd | hp | hp
    · exact absurd hd (hab.2.1 hw)
    · exact absurd hd (hba.2.1 hw.symm)
    · by_contra hne
      exact hba.2.2 ⟨hw, hp, hne⟩
    · by_contra hne
      exact hab.2.2 ⟨hw.symm, hp, fun he ↦ hne he.symm⟩
  simp only [whole, List.cons.injEq] at hw
  exact Timestamp.ext hw.1 hw.2.1 hw.2.2.1 hw.2.2.2.1 hw.2.2.2.2.1 hw.2.2.2.2.2.1 hf

theorem length_text {a b : Timestamp} (h : a.fraction.length = b.fraction.length) :
    a.text.toList.length = b.text.toList.length := by
  have hfraction : (fractionText a.fraction).length = (fractionText b.fraction).length := by
    cases ha : a.fraction <;> cases hb : b.fraction <;> simp_all [fractionText, digitText]
  rw [text, text, String.toList_ofList, String.toList_ofList, List.length_append,
    List.length_append, hfraction, length_renderFields a.fits_format b.fits_format]

theorem text_ne_empty (t : Timestamp) : t.text ≠ "" := by
  intro h
  have hlen := congrArg (fun s ↦ s.toList.length) h
  simp [text, renderFields, format, whole] at hlen

/-! ## The greatest text of a set -/

/-- **When the greatest text denotes what it should.** Let `M` have the greatest text in `S`, and
let `P` be a property of instants. Then `M` has `P` exactly when some member with `P` is outranked
by none: the later ones only extend it by digits, and none is a truncation of it. -/
theorem textMax_iff {S : Set Timestamp} {M : Timestamp} (hM : M ∈ S)
    (hmax : ∀ t ∈ S, t.text ≤ M.text) {P : Timestamp → Prop}
    (hP : ∀ {a b}, a ≤ b → b ≤ a → P a → P b) :
    P M ↔ ∃ m ∈ S, P m ∧ ∀ t ∈ S, (m < t → m.CutOf t) ∧ ¬t.Truncates m := by
  constructor
  · refine fun h ↦ ⟨M, hM, h, fun t ht ↦ ⟨fun hlt ↦ ?_, fun htr ↦ ?_⟩⟩
    -- a later time that does not extend `M` would have the greater text
    · by_contra hcut
      exact absurd (hmax t ht) (not_le.mpr (text_lt_text_iff_lt_or_cutOf.mpr (Or.inl ⟨hlt, hcut⟩)))
    · exact absurd (hmax t ht) (not_le.mpr (text_lt_text_iff_lt_or_cutOf.mpr (Or.inr htr.1)))
  · rintro ⟨m, hm, hPm, hbest⟩
    obtain ⟨hext, htr⟩ := hbest M hM
    rcases (hmax m hm).lt_or_eq with hlt | heq
    · rcases text_lt_text_iff_lt_or_cutOf.mp hlt with ⟨hmM, hncut⟩ | hcut
      -- `M` is later than `m` and does not extend it, against what `m` satisfies
      · exact absurd (hext hmM) hncut
      -- `M` is `m` with zeros cut off, so both denote one instant
      · exact hP (not_lt_iff.mp fun h ↦ htr ⟨hcut, h⟩) hcut.le hPm
    · rwa [← text_injective heq]

end Timestamp

end MsSecurity
