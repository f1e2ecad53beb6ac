import MsSecurity.Collector.Cursor
import MsSecurity.Time.Strptime

/-!
# Start dates

The start date of an input is validated twice: the modular input compares its text with the current
time before it reads it, and the handler of the configuration page compares the date it has read.
Both take what `strptime` can read, and `get_start_date` hands the text on as it is. So a date that
is not written canonically is either let through, and then compared as a text with the timestamps of
the API, or rejected by only one of the two, unless it is in the future for both
(`startDateConsistent_iff`).
-/

namespace MsSecurity

/-! ## The validators -/

/-- `validate_input`, with the parameter `start_date`. -/
def validateInput (startDate : Option String) (now : Timestamp) : Except PyError Unit :=
  match nonemptyStr? startDate with
  | none => .ok ()
  | some startDate =>
    if now.toSeconds.text < startDate then
      .error (.valueError ("Start date - " ++ startDate ++
        " is a future date. It should be less than current time"))
    else
      match strptime startDate with
      | some _ => .ok ()
      | none =>
        .error (.valueError ("Invalid date format specified for 'Start Date': " ++ startDate))

/-- `StartDateValidation.validate`; where it returns `False`, the message it puts. -/
def startDateValidation (startDate : Option String) (now : Timestamp) : Except String Unit :=
  match nonemptyStr? startDate with
  | none => .ok ()
  | some startDate =>
    match strptime startDate with
    | none => .error ("Invalid date format specified for 'Start Date': " ++ startDate)
    | some date => if now < date then .error "Start date cannot be in future" else .ok ()

/-- Without a checkpoint, the collectors start from the text. -/
def StartsWith (startDate text : String) : Prop := ∀ (services : Services) (world : World),
  services.readCheckpoint = none → world.checkpoint = none → world.startDate = some startDate →
    getStartDate services world = .ok text world

/-- The validators agree, and a date they accept is handed on as the canonical text, of 20
characters, of the instant it denotes. -/
structure StartDateConsistent (startDate : String) (now : Timestamp) : Prop where
  agree : validateInput (some startDate) now = .ok () ↔
    startDateValidation (some startDate) now = .ok ()
  canonical : validateInput (some startDate) now = .ok () → startDate ≠ "" → ∃ date,
    strptime startDate = some date ∧ date.text.toList.length = 20 ∧ StartsWith startDate date.text

/-! ## Dates that can be read -/

section Read

variable {startDate : String} {now date : Timestamp}

theorem fraction_of_strptime (h : strptime startDate = some date) : date.fraction = [] :=
  (mem_matchPattern_of_strptime h).2

theorem toSeconds_of_strptime (h : strptime startDate = some date) : date.toSeconds = date :=
  Timestamp.ext rfl rfl rfl rfl rfl rfl (fraction_of_strptime h).symm

theorem length_text_of_strptime (h : strptime startDate = some date) :
    date.text.toList.length = 20 := by
  rw [← toSeconds_of_strptime h, Timestamp.toList_text_toSeconds]
  simp [renderFields, yearMonthFormat, dayClockFormat]

theorem lt_iff_whole_lt (h : strptime startDate = some date) :
    now < date ↔ now.whole < date.whole := by
  rw [Timestamp.lt_iff, Timestamp.ticks, Timestamp.ticks, fraction_of_strptime h]
  simp [scaled]

theorem today_lt_text_iff (h : strptime startDate = some date) :
    now.toSeconds.text < date.text ↔ now < date := by
  rw [Timestamp.text_lt_text_iff_lt (by rw [fraction_of_strptime h]; rfl), lt_iff_whole_lt h,
    lt_iff_whole_lt h]
  rfl

theorem validateInput_eq_ok_iff (now : Timestamp) (hne : startDate ≠ "")
    (h : strptime startDate = some date) :
    validateInput (some startDate) now = .ok () ↔ ¬now.toSeconds.text < startDate := by
  rw [validateInput, nonemptyStr?_eq_some_iff.mpr ⟨rfl, hne⟩]
  dsimp only
  rw [h]
  split_ifs with hlt <;> simp [hlt]

theorem startDateValidation_eq_ok_iff (now : Timestamp) (hne : startDate ≠ "")
    (h : strptime startDate = some date) :
    startDateValidation (some startDate) now = .ok () ↔ ¬now < date := by
  rw [startDateValidation, nonemptyStr?_eq_some_iff.mpr ⟨rfl, hne⟩]
  dsimp only
  rw [h]
  dsimp only
  split_ifs with hlt <;> simp [hlt]

theorem rejected_of_strptime_eq_none (now : Timestamp) (hne : startDate ≠ "")
    (h : strptime startDate = none) :
    validateInput (some startDate) now ≠ .ok () ∧
      startDateValidation (some startDate) now ≠ .ok () := by
  rw [validateInput, startDateValidation, nonemptyStr?_eq_some_iff.mpr ⟨rfl, hne⟩]
  dsimp only
  rw [h]
  refine ⟨?_, fun hok ↦ nomatch hok⟩
  split_ifs <;> exact fun hok ↦ nomatch hok

theorem startsWith_iff (hne : startDate ≠ "") {text : String} :
    StartsWith startDate text ↔ ensureZ startDate = text := by
  have hget {services : Services} {world : World} (hread : services.readCheckpoint = none)
      (hcheckpoint : world.checkpoint = none) (hdate : world.startDate = some startDate) :
      getStartDate services world = .ok (ensureZ startDate) world := by
    have hends : Ends (getStartDate services) world fun r after ↦
        .ok (ensureZ startDate) = r ∧ after = world := by
      simp only [getStartDate, ends_bind, ends_attempt, hread, ends_get, hcheckpoint]
      change Ends (get >>= _) world _
      rw [ends_get_bind, hdate, nonemptyStr?_eq_some_iff.mpr ⟨rfl, hne⟩]
      exact ⟨rfl, rfl⟩
    obtain ⟨after, hget, rfl⟩ := hends.exists_of_ok
    exact hget
  constructor
  · intro hstarts
    have htext := hstarts (.handingOut []) ⟨none, some startDate, [], []⟩ rfl rfl rfl
    rw [hget rfl rfl rfl] at htext
    exact (EStateM.Result.ok.inj htext).1
  · rintro rfl services world hread hcheckpoint hdate
    exact hget hread hcheckpoint hdate

/-- What ends in a digit and a `Z` is not read without the `Z`. -/
theorem ensureZ_eq_text_iff (h : strptime startDate = some date) :
    ensureZ startDate = date.text ↔ startDate = date.text := by
  obtain ⟨front, d, hd, htext⟩ := date.exists_toList_text_toSeconds
  rw [toSeconds_of_strptime h] at htext
  have hlast : date.text.toList.getLast? = some 'Z' := by rw [htext, List.getLast?_concat]
  rw [ensureZ]
  split_ifs with hstart
  · exact Iff.rfl
  · constructor
    · intro happend
      have hfront : startDate.toList = front ++ [Nat.digitChar d] := by
        rw [← happend, String.toList_append] at htext
        exact List.append_cancel_right htext
      obtain ⟨c, hc, hgetLast⟩ := exists_getLast?_of_strptime h
      rw [hfront, List.getLast?_concat] at hgetLast
      obtain rfl := Option.some.inj hgetLast
      have hall : ∀ d < 10, (Nat.digitChar d).toLower ≠ 'z' := by decide
      exact absurd hc (hall d hd)
    · rintro rfl
      exact absurd hlast hstart

end Read

/-- **Start dates.** The validators agree, and an accepted date is handed on canonically, if and
only if a date that can be read is written canonically, or it is in the future and does not have the
current year and month and a space in front of the day. -/
theorem startDateConsistent_iff (startDate : String) (now : Timestamp) :
    StartDateConsistent startDate now ↔ ∀ date, startDate ≠ "" → strptime startDate = some date →
      startDate = date.text ∨ now < date ∧ ¬now.SpacedDay startDate := by
  rcases eq_or_ne startDate "" with rfl | hne
  · exact iff_of_true ⟨iff_of_true rfl rfl, fun _ hne ↦ absurd rfl hne⟩
      fun _ hne ↦ absurd rfl hne
  cases h : strptime startDate with
  | none =>
    obtain ⟨hinput, hpage⟩ := rejected_of_strptime_eq_none now hne h
    refine iff_of_true ⟨iff_of_false hinput hpage, fun hok ↦ absurd hok hinput⟩ ?_
    rintro date - hsome
    cases hsome
  | some date =>
    have hinput := validateInput_eq_ok_iff now hne h
    have hpage := startDateValidation_eq_ok_iff now hne h
    constructor
    · intro hconsistent date' _ hdate'
      obtain rfl := Option.some.inj hdate'
      have hagree := hconsistent.agree
      rw [hinput, hpage, not_iff_not] at hagree
      by_cases hlt : now.toSeconds.text < startDate
      · exact Or.inr ⟨hagree.mp hlt, fun hspace ↦ absurd hlt (not_lt.mpr hspace.lt.le)⟩
      · obtain ⟨date', hdate', -, hstarts⟩ := hconsistent.canonical (hinput.mpr hlt) hne
        obtain rfl := Option.some.inj (h.symm.trans hdate')
        exact Or.inl ((ensureZ_eq_text_iff h).mp ((startsWith_iff hne).mp hstarts))
    · intro hcondition
      have hagree : now.toSeconds.text < startDate ↔ now < date := by
        rcases hcondition date hne rfl with htext | ⟨hfuture, hspace⟩
        · rw [htext, today_lt_text_iff h]
        · exact iff_of_true
            (Timestamp.text_lt_of_strptime h ((lt_iff_whole_lt h).mp hfuture) hspace) hfuture
      refine ⟨by rw [hinput, hpage, not_iff_not, hagree], fun hok _ ↦ ?_⟩
      rw [hinput, hagree] at hok
      have htext := (hcondition date hne rfl).resolve_right fun hfuture ↦ hok hfuture.1
      refine ⟨date, h, length_text_of_strptime h, (startsWith_iff hne).mpr ?_⟩
      exact (ensureZ_eq_text_iff h).mpr htext

/-! ## A month of one digit -/

/-- Noon of the first of June. -/
def juneNoon : Timestamp := (datetime [2024, 6, 1, 12, 0, 0]).get (by decide)

/-- In June a date in January has the greater text. -/
theorem not_startDateConsistent :
    ¬∀ (startDate : String) (now : Timestamp), StartDateConsistent startDate now := by
  intro hall
  have haccepted : startDateValidation (some "2024-1-05T00:00:00Z") juneNoon = .ok () := by
    decide +kernel
  have hrejected := (hall "2024-1-05T00:00:00Z" juneNoon).agree.mpr haccepted
  have hlt : juneNoon.toSeconds.text < "2024-1-05T00:00:00Z" := by decide
  rw [validateInput, nonemptyStr?_eq_some_iff.mpr ⟨rfl, by decide⟩] at hrejected
  dsimp only at hrejected
  rw [if_pos hlt] at hrejected
  cases hrejected

end MsSecurity
