import MsSecurity.Collector.Pass
import MsSecurity.Time.Timestamp

/-!
# The checkpoint a pass stores

The loop keeps the greatest update time *as text*. What is wanted of it is the latest one in time,
in the field the next request's `$filter` will compare, so that the request returns nothing already
written. Two things come between: a record may carry another update field that the loop prefers, and
timestamps of different precision do not sort by time. `checkpoint_isLatest_iff` says exactly when
neither does harm.
-/

namespace MsSecurity

/-! ## The times of a record -/

/-- The keys the loop looks for an update time under, in its order of preference. -/
def Collector.updateFields (c : Collector) : List String := ["lastUpdateDateTime", c.otherField]

/-- The time in the field that the request's `$filter` compares. -/
def FilterTime (c : Collector) (api : Api) (record : Json) (t : Timestamp) : Prop :=
  ∃ fields : Json.Object, record = .obj fields ∧ fields.getD (c.filter api).field = .str t.text

/-- A record whose update times are timestamps, the one that is filtered by among them. -/
structure Timed (c : Collector) (api : Api) (record : Json) : Prop where
  filterTime : ∃ t, FilterTime c api record t
  updateTime : ∀ fields : Json.Object, record = .obj fields → ∀ key ∈ c.updateFields,
    (fields.getD key).truthy = true → ∃ t : Timestamp, fields.getD key = .str t.text

/-- `t` is the query date or a time a record is filtered by. -/
def ListedTime (c : Collector) (api : Api) (queryDate : Timestamp) (records : List Json)
    (t : Timestamp) : Prop :=
  t = queryDate ∨ ∃ record ∈ records, FilterTime c api record t

/-- `t` is the query date or a time the loop reads. -/
def ReadTime (c : Collector) (queryDate : Timestamp) (records : List Json) (t : Timestamp) : Prop :=
  t = queryDate ∨ ∃ record ∈ records, ReadsDate c record t.text

/-- `v` denotes the latest instant among the query date and the times filtered by. -/
def IsLatest (c : Collector) (api : Api) (queryDate : Timestamp) (records : List Json)
    (v : Timestamp) : Prop :=
  (∀ t, ListedTime c api queryDate records t → t ≤ v) ∧
    ∃ t, ListedTime c api queryDate records t ∧ v ≤ t

variable {c : Collector} {api : Api} {queryDate : Timestamp} {records : List Json} {record : Json}

theorem IsLatest.congr {a b : Timestamp} (hab : a ≤ b) (hba : b ≤ a)
    (h : IsLatest c api queryDate records a) : IsLatest c api queryDate records b := by
  obtain ⟨hle, t, ht, hat⟩ := h
  exact ⟨fun u hu ↦ (hle u hu).trans hab, t, ht, hba.trans hat⟩

/-- Nothing that a latest checkpoint covers comes back: the next filter asks for later times. -/
theorem IsLatest.not_refetched {v t : Timestamp} (h : IsLatest c api queryDate records v)
    (hrecord : record ∈ records) (ht : FilterTime c api record t) : ¬v < t :=
  not_lt_of_ge (h.1 t (Or.inr ⟨record, hrecord, ht⟩))

theorem filter_field_mem_updateFields (c : Collector) (api : Api) :
    (c.filter api).field ∈ c.updateFields := by
  cases c <;> cases api <;> decide

theorem FilterTime.unique {t u : Timestamp} (ht : FilterTime c api record t)
    (hu : FilterTime c api record u) : t = u := by
  obtain ⟨fields, rfl, ht⟩ := ht
  obtain ⟨fields', hf, hu⟩ := hu
  obtain rfl := Json.obj.inj hf
  exact Timestamp.text_injective (Json.str.inj (ht.symm.trans hu))

theorem ReadsDate.unique {s s' : String} (h : ReadsDate c record s) (h' : ReadsDate c record s') :
    s = s' := by
  obtain ⟨fields, rfl, hs⟩ := h
  obtain ⟨fields', hf, hs'⟩ := h'
  obtain rfl := Json.obj.inj hf
  exact Json.str.inj (hs.symm.trans hs')

theorem lastUpdate_eq_of_truthy {fields : Json.Object} {key : String} (hkey : key ∈ c.updateFields)
    (htrue : (fields.getD key).truthy = true)
    (hbefore : key = "lastUpdateDateTime" ∨ (fields.getD "lastUpdateDateTime").truthy = false) :
    c.lastUpdate fields = fields.getD key := by
  rcases hbefore with rfl | hbefore
  · rw [Collector.lastUpdate, Json.or_of_truthy htrue, Json.or_of_truthy htrue]
  · have hother : key = c.otherField := by
      rcases List.mem_cons.mp hkey with rfl | hmem
      · exact absurd htrue (by simp [hbefore])
      · exact List.mem_singleton.mp hmem
    rw [Collector.lastUpdate, Json.or_of_not_truthy hbefore, ← hother, Json.or_of_truthy htrue]

theorem Timed.exists_readsDate (h : Timed c api record) :
    ∃ t : Timestamp, ReadsDate c record t.text := by
  obtain ⟨⟨u, fields, rfl, hu⟩, htimes⟩ := h
  have hutrue : (fields.getD (c.filter api).field).truthy = true := by
    simp [hu, u.text_ne_empty]
  cases hfirst : (fields.getD "lastUpdateDateTime").truthy with
  | true =>
    obtain ⟨t, ht⟩ := htimes fields rfl "lastUpdateDateTime" List.mem_cons_self hfirst
    refine ⟨t, fields, rfl, ?_⟩
    rw [lastUpdate_eq_of_truthy List.mem_cons_self hfirst (Or.inl rfl), ht]
  | false =>
    refine ⟨u, fields, rfl, ?_⟩
    rw [lastUpdate_eq_of_truthy (filter_field_mem_updateFields c api) hutrue (Or.inr hfirst), hu]

theorem exists_isLatest (h : ∀ record ∈ records, ∃ t, FilterTime c api record t) :
    ∃ v, ListedTime c api queryDate records v ∧
      ∀ t, ListedTime c api queryDate records t → t ≤ v := by
  induction records with
  | nil =>
    refine ⟨queryDate, Or.inl rfl, ?_⟩
    rintro t (rfl | ⟨r, hr, -⟩)
    · exact le_rfl
    · exact absurd hr List.not_mem_nil
  | cons record records ih =>
    obtain ⟨v, hv, hle⟩ := ih fun r hr ↦ h r (List.mem_cons_of_mem _ hr)
    obtain ⟨u, hu⟩ := h record List.mem_cons_self
    have hsplit : ∀ t, ListedTime c api queryDate (record :: records) t →
        t = u ∨ ListedTime c api queryDate records t := by
      rintro t (rfl | ⟨r, hr, ht⟩)
      · exact Or.inr (Or.inl rfl)
      · rcases List.mem_cons.mp hr with rfl | hr
        · exact Or.inl (ht.unique hu)
        · exact Or.inr (Or.inr ⟨r, hr, ht⟩)
    have hvlisted : ListedTime c api queryDate (record :: records) v :=
      hv.imp id fun ⟨r, hr, ht⟩ ↦ ⟨r, List.mem_cons_of_mem _ hr, ht⟩
    by_cases huv : u ≤ v
    · refine ⟨v, hvlisted, fun t ht ↦ ?_⟩
      rcases hsplit t ht with rfl | ht
      · exact huv
      · exact hle t ht
    · have hvu : v ≤ u := (Timestamp.not_le_iff.mp huv).le
      refine ⟨u, Or.inr ⟨record, List.mem_cons_self, hu⟩, fun t ht ↦ ?_⟩
      rcases hsplit t ht with rfl | ht
      · exact le_rfl
      · exact (hle t ht).trans hvu

/-! ## The stored date -/

/-- What the loop ends with is the read time with the greatest text. -/
theorem Ingested.exists_textMax {item : InputItem} {tenantId maxDate : String}
    {written : List Event}
    (h : Ingested c item tenantId records queryDate.text maxDate written)
    (htimed : ∀ record ∈ records, Timed c api record) :
    ∃ M : Timestamp, maxDate = M.text ∧ ReadTime c queryDate records M ∧
      ∀ t, ReadTime c queryDate records t → t.text ≤ M.text := by
  obtain ⟨dates, hdates, hmax⟩ := h.dates
  obtain ⟨hmem, hle⟩ := foldl_max_eq_iff.mp hmax.symm
  have hread : ∀ t, ReadTime c queryDate records t → t.text ≤ maxDate := by
    rintro t (rfl | ⟨record, hrecord, ht⟩)
    · exact hle _ List.mem_cons_self
    · obtain ⟨date, hdate, hreads⟩ := exists_of_forall₂_left hdates hrecord
      exact hle _ (List.mem_cons_of_mem _ (ht.unique hreads ▸ hdate))
  rcases List.mem_cons.mp hmem with rfl | hmem
  · exact ⟨queryDate, rfl, Or.inl rfl, hread⟩
  · obtain ⟨record, hrecord, hreads⟩ := exists_of_forall₂_right hdates hmem
    obtain ⟨M, hM⟩ := (htimed record hrecord).exists_readsDate
    obtain rfl := hreads.unique hM
    exact ⟨M, rfl, Or.inr ⟨record, hrecord, hM⟩, hread⟩

/-- A pass that ended normally with its checkpoint stored, over timed records. -/
structure StoredPass (c : Collector) (api : Api) (services : Services) (item : InputItem)
    (prior accessToken : Json) (w w' : World) (queryDate : Timestamp) (records : List Json) :
    Prop where
  api_eq : c.api? item = some api
  run : c.stream services item prior w = .ok accessToken w'
  stored : services.HandlerSucceeds
  queryDate_eq : w.queryDate?.getD services.defaultStartDate = queryDate.text
  served_eq : w'.served = w.served ++ records
  timed : ∀ record ∈ records, Timed c api record

variable {services : Services} {item : InputItem} {prior accessToken : Json} {w w' : World}

theorem StoredPass.exists_textMax
    (h : StoredPass c api services item prior accessToken w w' queryDate records) :
    ∃ M : Timestamp, w'.checkpoint = some M.text ∧ ReadTime c queryDate records M ∧
      ∀ t, ReadTime c queryDate records t → t.text ≤ M.text := by
  obtain ⟨q, w₁, urls, token, tenantId, hstart, -, served, maxDate, written, -, hdone, hw'⟩ :=
    Collector.stream_completed h.run h.stored
  obtain rfl : q = queryDate.text := hstart.eq_getD.trans h.queryDate_eq
  -- the records of the run are the ones the loop went through
  have hserved : served = records := by
    have heq := h.served_eq
    rw [hw', hstart.same.2.2] at heq
    exact List.append_cancel_left heq
  subst hserved
  obtain ⟨M, rfl, hM⟩ := hdone.exists_textMax h.timed
  exact ⟨M, by rw [hw'], hM⟩

/-- **When the stored checkpoint is the latest time.** Some time the loop reads must denote the
latest instant filtered by, and be outranked by no other: every later one it reads only extends it
by fraction digits, and none is a truncation of it. Where the loop reads the very field that is
filtered by, what is left is that no time listed is a truncation of a latest one. -/
theorem checkpoint_isLatest_iff
    (h : StoredPass c api services item prior accessToken w w' queryDate records) :
    ∃ v : Timestamp, w'.checkpoint = some v.text ∧
      (IsLatest c api queryDate records v ↔
        ∃ m, ReadTime c queryDate records m ∧ IsLatest c api queryDate records m ∧
          ∀ t, ReadTime c queryDate records t → (m < t → m.CutOf t) ∧ ¬t.Truncates m) ∧
      ((∀ record ∈ records, ∀ t, FilterTime c api record t → ReadsDate c record t.text) →
        (IsLatest c api queryDate records v ↔
          ∀ m, ListedTime c api queryDate records m → IsLatest c api queryDate records m →
            ∀ t, ListedTime c api queryDate records t → ¬t.Truncates m)) ∧
      (IsLatest c api queryDate records v →
        ∀ record ∈ records, ∀ t, FilterTime c api record t → ¬v < t) := by
  obtain ⟨v, hv, hvread, hvmax⟩ := h.exists_textMax
  have hgeneral := Timestamp.textMax_iff (S := {t | ReadTime c queryDate records t}) hvread hvmax
    (P := IsLatest c api queryDate records) IsLatest.congr
  refine ⟨v, hv, hgeneral, fun hsame ↦ ?_, fun hlatest record hrecord t ht ↦
    hlatest.not_refetched hrecord ht⟩
  -- where the loop reads the field filtered by, the times read are the times listed
  have hread_iff : ∀ t, ReadTime c queryDate records t ↔ ListedTime c api queryDate records t := by
    intro t
    refine or_congr_right ⟨?_, fun ⟨r, hr, ht⟩ ↦ ⟨r, hr, hsame r hr t ht⟩⟩
    rintro ⟨r, hr, ht⟩
    obtain ⟨u, hu⟩ := (h.timed r hr).filterTime
    obtain rfl := Timestamp.text_injective (ht.unique (hsame r hr u hu))
    exact ⟨r, hr, hu⟩
  constructor
  · intro hlatest m _ hm t ht htr
    obtain ⟨m', -, hm', hbest⟩ := hgeneral.mp hlatest
    have hle : ∀ {a b}, IsLatest c api queryDate records a → IsLatest c api queryDate records b →
        a ≤ b := fun ⟨_, x, hx, hax⟩ hb ↦ hax.trans (hb.1 x hx)
    exact (hbest t ((hread_iff t).mpr ht)).2 (htr.congr_right (hle hm hm') (hle hm' hm))
  · intro hnone
    obtain ⟨m, hm, hle⟩ : ∃ m, ListedTime c api queryDate records m ∧
        ∀ t, ListedTime c api queryDate records t → t ≤ m :=
      exists_isLatest fun r hr ↦ (h.timed r hr).filterTime
    -- no time is later than `m`, and by assumption none truncates it
    have hmlatest : IsLatest c api queryDate records m := ⟨hle, m, hm, le_rfl⟩
    refine hgeneral.mpr ⟨m, (hread_iff m).mpr hm, hmlatest, fun t ht ↦ ?_⟩
    have htlisted := (hread_iff t).mp ht
    exact ⟨fun hlt ↦ absurd hlt (not_lt_of_ge (hle t htlisted)), hnone m hm hmlatest t htlisted⟩

/-! ## A truncated query date

The query date has no fraction, and a record was updated half a second after it. -/

/-- Services that never fail and hand out the given records. -/
def Services.handingOut (records : List Json) : Services where
  accountDetails := fun _ ↦ .ok ⟨some "client", some "secret", some "tenant", false, none⟩
  readCheckpoint := none
  defaultStartDate := "2023-12-02T00:00:00Z"
  updateConf := none
  accessToken := fun _ ↦ .ok (.str "token")
  currentVersion := some "2.5.0"
  odata := fun _ ↦ .ok records
  writeEvent := fun _ _ ↦ none
  handlerRead := none
  handlerUpdate := .stored

/-- An input of the general location. -/
def generalItem : InputItem where
  azureAppAccount := "account"
  tenantId := none
  environment := none
  location := some "api.securitycenter.windows.com"
  index := "main"
  sourcetype := "ms:defender:atp:alerts"

/-- New Year's midnight, with the given fraction of a second. -/
def midnight (fraction : List (Fin 10)) (h : fraction.length ≤ 7) : Timestamp where
  year := 2024
  month := 1
  day := 1
  hour := 0
  minute := 0
  second := 0
  fraction := fraction
  year_lt := by decide
  month_mem := by decide
  day_mem := by decide
  hour_lt := by decide
  minute_lt := by decide
  second_le := by decide
  fraction_length := h

/-- An alert with an update time of the Microsoft 365 API. -/
def alertUpdatedAt (date : String) : Json :=
  .obj [("id", .str "da1"), ("lastUpdateTime", .str date)]

/-- The world before: nothing stored, and the start date at midnight. -/
def worldAtMidnight : World where
  checkpoint := none
  startDate := some "2024-01-01T00:00:00Z"
  index := []
  served := []

/-- The world after a pass that was handed one alert, updated half a second past midnight. -/
def worldPastMidnight : World where
  checkpoint := some "2024-01-01T00:00:00Z"
  startDate := some "2024-01-01T00:00:00Z"
  index := [alertEvent generalItem
    [("id", .str "da1"), ("lastUpdateTime", .str "2024-01-01T00:00:00.5Z")]]
  served := [alertUpdatedAt "2024-01-01T00:00:00.5Z"]

private theorem text_halfSecond :
    (midnight [5] (by decide)).text = "2024-01-01T00:00:00.5Z" := by decide

private theorem alertUpdatedAt_filterTime :
    FilterTime .alerts .api365 (alertUpdatedAt "2024-01-01T00:00:00.5Z")
      (midnight [5] (by decide)) := ⟨_, rfl, congrArg Json.str text_halfSecond.symm⟩

theorem storedPass_midnight :
    StoredPass .alerts .api365 (.handingOut [alertUpdatedAt "2024-01-01T00:00:00.5Z"]) generalItem
      .null (.str "token") worldAtMidnight worldPastMidnight (midnight [] (by decide))
      [alertUpdatedAt "2024-01-01T00:00:00.5Z"] where
  api_eq := rfl
  run := rfl
  stored := ⟨rfl, rfl⟩
  queryDate_eq := rfl
  served_eq := rfl
  timed := by
    intro record hrecord
    obtain rfl := List.mem_singleton.mp hrecord
    refine ⟨⟨_, alertUpdatedAt_filterTime⟩, ?_⟩
    intro fields hfields key hkey htrue
    obtain rfl := Json.obj.inj hfields
    rcases List.mem_cons.mp hkey with rfl | hkey
    · exact absurd htrue Bool.false_ne_true
    · obtain rfl := List.mem_singleton.mp hkey
      exact ⟨midnight [5] (by decide), congrArg Json.str text_halfSecond.symm⟩

theorem checkpoint_isLatest_iff_midnight : ∃ v : Timestamp,
    worldPastMidnight.checkpoint = some v.text ∧
    (IsLatest .alerts .api365 (midnight [] (by decide))
        [alertUpdatedAt "2024-01-01T00:00:00.5Z"] v ↔
      ∃ m, ReadTime .alerts (midnight [] (by decide))
          [alertUpdatedAt "2024-01-01T00:00:00.5Z"] m ∧
        IsLatest .alerts .api365 (midnight [] (by decide))
          [alertUpdatedAt "2024-01-01T00:00:00.5Z"] m ∧
        ∀ t, ReadTime .alerts (midnight [] (by decide))
          [alertUpdatedAt "2024-01-01T00:00:00.5Z"] t → (m < t → m.CutOf t) ∧ ¬t.Truncates m) := by
  obtain ⟨v, hv, hiff, -⟩ := checkpoint_isLatest_iff storedPass_midnight
  exact ⟨v, hv, hiff⟩

/-- The date stored after that pass is midnight again, and the alert will be handed out again. -/
theorem checkpoint_not_isLatest :
    ¬∀ (services : Services) (item : InputItem) (prior accessToken : Json) (w w' : World)
      (queryDate : Timestamp) (records : List Json),
      StoredPass .alerts .api365 services item prior accessToken w w' queryDate records →
      ∃ v : Timestamp, w'.checkpoint = some v.text ∧
        IsLatest .alerts .api365 queryDate records v := by
  intro h
  obtain ⟨v, hv, hlatest⟩ := h _ _ _ _ _ _ _ _ storedPass_midnight
  have hmidnight : some (midnight [] (by decide)).text = some v.text := hv
  obtain rfl := Timestamp.text_injective (Option.some.inj hmidnight)
  have hle := hlatest.1 (midnight [5] (by decide))
    (Or.inr ⟨_, List.mem_singleton_self _, alertUpdatedAt_filterTime⟩)
  exact absurd hle (by decide)

end MsSecurity
