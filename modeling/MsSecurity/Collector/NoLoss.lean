import MsSecurity.Collector.Cursor
import MsSecurity.Transition.Run

/-!
# No record is lost

A collector and the API it polls, as one system. The API holds record versions and replaces them as
they are updated; the collector polls, and any poll may stop at any of its steps. The checkpoint is
moved last and never past a time that was handed out, so whatever it covers has been written:
`no_loss`.

The argument needs the two orders of `Timestamp` to agree, so all times have one number of fraction
digits here.
-/

namespace MsSecurity

/-! ## The system -/

/-- A version of a record as the API holds it. It carries its update time in the field the `$filter`
compares and in no other update field, to a fixed number of fraction digits. -/
structure Version (c : Collector) (api : Api) (digits : ℕ) where
  id : String
  time : Timestamp
  fields : Json.Object
  digits_eq : time.fraction.length = digits
  filtered : fields.getD (c.filter api).field = .str time.text
  only : ∀ key ∈ c.updateFields, key ≠ (c.filter api).field → fields.getD key = .null

/-- The collector's world, the records of the API, the versions that were on the server at a poll
that ended with its checkpoint stored, and the tenants that were polled for. -/
structure Deployment (c : Collector) (api : Api) (digits : ℕ) where
  world : World
  server : List (Version c api digits)
  polled : List (Version c api digits)
  tenants : List String

/-- What happens next. -/
inductive CollectorAction (c : Collector) (api : Api) (digits : ℕ)
  /-- A record is created, or replaced by a new version. -/
  | update (v : Version c api digits)
  /-- A pass, with the answers it gets. -/
  | poll (services : Services) (prior : Json)

namespace Deployment

variable {c : Collector} {api : Api} {digits : ℕ}

/-- One action. -/
def step (item : InputItem) (s : Deployment c api digits) :
    CollectorAction c api digits → Option (Deployment c api digits)
  | .update v => some { s with server := v :: s.server.filter fun u ↦ u.id ≠ v.id }
  | .poll services prior =>
    let tenants := s.tenants ++ (services.tenant? item).toList
    match c.stream services item prior s.world with
    | .ok _ w => some { s with
        world := w
        polled := if services.HandlerSucceeds then s.polled ++ s.server else s.polled
        tenants := tenants }
    | .error _ w => some { s with world := w, tenants := tenants }

/-- The odata call hands out exactly the versions updated after the date it is asked for. -/
def Answers (s : Deployment c api digits) (services : Services) : Prop :=
  ∀ (urls : ApiUrls) (token : Json) (q : Timestamp) (records : List Json),
    urls.api = api → q.fraction.length = digits →
    services.odata (c.requestSince services.currentVersion urls token q.text) = .ok records →
    ∀ record, record ∈ records ↔ ∃ v ∈ s.server, q < v.time ∧ record = .obj v.fields

/-- What is assumed of each action where it is taken. An update is stamped later than everything
handed out so far; a poll is answered from the server, and a default start date, where one is
needed, has the format of the rest. -/
def Allowed (s : Deployment c api digits) : CollectorAction c api digits → Prop
  | .update v => ∀ record ∈ s.world.served, ∀ t, FilterTime c api record t → t < v.time
  | .poll services _ => s.Answers services ∧ (s.world.queryDate? = none →
      ∃ t : Timestamp, services.defaultStartDate = t.text ∧ t.fraction.length = digits)

/-- The start date in force. -/
def StartIs (s : Deployment c api digits) (start : Timestamp) : Prop :=
  (nonemptyStr? s.world.startDate).map ensureZ = some start.text

/-- Before the first poll: nothing stored or handed out, and a start date, if there is one, in the
format of the rest. -/
structure Initial (s : Deployment c api digits) : Prop where
  checkpoint : s.world.checkpoint = none
  served : s.world.served = []
  polled : s.polled = []
  tenants : s.tenants = []
  start : nonemptyStr? s.world.startDate ≠ none →
    ∃ start : Timestamp, s.StartIs start ∧ start.fraction.length = digits

/-- The events a version is to become are in the index, one after the other, for one of the
tenants. -/
def Written (item : InputItem) (tenants : List String) (index : List Event)
    (v : Version c api digits) : Prop :=
  ∃ tenantId ∈ tenants, ∃ events, BecomesEvents item tenantId c (.obj v.fields) events ∧
    events <:+: index

/-- Whatever was on the server at a poll that stored its checkpoint, was updated after the start
date and is not past the checkpoint, has been written. -/
def NoLoss (item : InputItem) (s : Deployment c api digits) : Prop :=
  ∀ v ∈ s.polled, ∃ start cursor : Timestamp, s.StartIs start ∧
    s.world.checkpoint = some cursor.text ∧
    (start < v.time → v.time ≤ cursor → Written item s.tenants s.world.index v)

/-- The checkpoint does not go back. -/
def CheckpointLE (s t : Deployment c api digits) : Prop :=
  ∀ d, s.world.checkpoint = some d → ∃ q q' : Timestamp, d = q.text ∧
    t.world.checkpoint = some q'.text ∧ q ≤ q'

/-! ## The invariant -/

/-- `q` is the start date, or was handed out as the time of a record. -/
def Known (s : Deployment c api digits) (start q : Timestamp) : Prop :=
  q = start ∨ ∃ record ∈ s.world.served, FilterTime c api record q

structure Inv (item : InputItem) (s : Deployment c api digits) : Prop where
  /-- A start date has the format of the rest. -/
  start : nonemptyStr? s.world.startDate ≠ none →
    ∃ start : Timestamp, s.StartIs start ∧ start.fraction.length = digits
  /-- So has a checkpoint, and it is the start date or a time handed out. -/
  cursor : ∀ d, s.world.checkpoint = some d → ∃ start q : Timestamp, s.StartIs start ∧
    d = q.text ∧ q.fraction.length = digits ∧ s.Known start q
  /-- What the server holds up to the checkpoint is written. -/
  server : ∀ start q : Timestamp, s.StartIs start → s.world.checkpoint = some q.text →
    ∀ v ∈ s.server, start < v.time → v.time ≤ q → Written item s.tenants s.world.index v
  /-- So is what it held when a poll stored its checkpoint. -/
  polled : ∀ v ∈ s.polled, s.world.checkpoint ≠ none ∧
    ∀ start, s.StartIs start → start < v.time → Written item s.tenants s.world.index v

variable {item : InputItem} {s : Deployment c api digits}

theorem StartIs.unique {a b : Timestamp} (ha : s.StartIs a) (hb : s.StartIs b) : a = b :=
  Timestamp.text_injective (Option.some.inj (Eq.trans (Eq.symm ha) hb))

theorem Initial.inv (h : s.Initial) : s.Inv item where
  start := h.start
  cursor := fun d hd ↦ nomatch h.checkpoint.symm.trans hd
  server := fun _ q _ hq ↦ nomatch h.checkpoint.symm.trans hq
  polled := fun v hv ↦ by simp [h.polled] at hv

theorem Inv.noLoss (h : s.Inv item) : s.NoLoss item := by
  intro v hv
  obtain ⟨hstored, hwritten⟩ := h.polled v hv
  obtain ⟨d, hd⟩ := Option.ne_none_iff_exists'.mp hstored
  obtain ⟨start, q, hstart, rfl, -, -⟩ := h.cursor d hd
  exact ⟨start, q, hstart, hd, fun hlt _ ↦ hwritten start hstart hlt⟩

theorem Written.append {tenants : List String} {index : List Event} {v : Version c api digits}
    (h : Written item tenants index v) (ts : List String) (written : List Event) :
    Written item (tenants ++ ts) (index ++ written) v := by
  obtain ⟨tenantId, ht, events, hevents, hinfix⟩ := h
  exact ⟨tenantId, List.mem_append_left _ ht, events, hevents,
    hinfix.trans (List.prefix_append index written).isInfix⟩

theorem Written.append_index {tenants : List String} {index : List Event}
    {v : Version c api digits} (h : Written item tenants index v) (written : List Event) :
    Written item tenants (index ++ written) v := by
  simpa using h.append [] written

theorem ensureZ_text (t : Timestamp) : ensureZ t.text = t.text := by
  have hlast : t.text.toList.getLast? = some 'Z' := by
    rw [Timestamp.text, String.toList_ofList]
    cases t.fraction with
    | nil => simp [fractionText]
    | cons d ds =>
      rw [fractionText, ← List.cons_append, ← List.append_assoc, List.getLast?_concat]
  rw [ensureZ, if_pos hlast]

/-! ## Updates -/

/-- A new version is later than the checkpoint, or not after the start date. -/
theorem Inv.update (h : s.Inv item) {v : Version c api digits} (hok : s.Allowed (.update v)) :
    Inv item { s with server := v :: s.server.filter fun u ↦ u.id ≠ v.id } where
  start := h.start
  cursor := h.cursor
  polled := h.polled
  server := by
    intro start q hstart hq u hu hlt hle
    rcases List.mem_cons.mp hu with rfl | hu
    · obtain ⟨start', q', hstart', hqq', -, hknown⟩ := h.cursor _ hq
      obtain rfl := StartIs.unique (s := s) hstart hstart'
      obtain rfl := Timestamp.text_injective hqq'
      -- the checkpoint is the start date or a time handed out;
      -- the new version is later than both
      rcases hknown with rfl | ⟨record, hrecord, ht⟩
      · exact absurd hle (not_le_of_gt hlt)
      · exact absurd hle (not_le_of_gt (hok record hrecord q ht))
    · exact h.server start q hstart hq u (List.mem_of_mem_filter hu) hlt hle

/-! ## Polls -/

theorem Inv.extend (h : s.Inv item) (served : List Json) (written : List Event) :
    Inv item { s with world := { s.world with
      served := s.world.served ++ served
      index := s.world.index ++ written } } where
  start := h.start
  cursor := by
    intro d hd
    obtain ⟨start, q, hstart, hdq, hdigits, hknown⟩ := h.cursor d hd
    exact ⟨start, q, hstart, hdq, hdigits, hknown.imp id fun ⟨record, hrecord, ht⟩ ↦
      ⟨record, List.mem_append_left _ hrecord, ht⟩⟩
  server := fun start q hstart hq v hv hlt hle ↦
    (h.server start q hstart hq v hv hlt hle).append_index written
  polled := fun v hv ↦ ⟨(h.polled v hv).1, fun start hstart hlt ↦
    ((h.polled v hv).2 start hstart hlt).append_index written⟩

theorem Inv.pollsFor (h : s.Inv item) (tenants : List String) :
    Inv item { s with tenants := s.tenants ++ tenants } where
  start := h.start
  cursor := h.cursor
  server := fun start q hstart hq v hv hlt hle ↦ by
    simpa using (h.server start q hstart hq v hv hlt hle).append tenants []
  polled := fun v hv ↦ ⟨(h.polled v hv).1, fun start hstart hlt ↦ by
    simpa using ((h.polled v hv).2 start hstart hlt).append tenants []⟩

/-- The date a poll queries from, in the state in which it queries. -/
structure QueriesFrom (s : Deployment c api digits) (q : Timestamp) : Prop where
  digits_eq : q.fraction.length = digits
  /-- It is the checkpoint, or the start date where there is no checkpoint. -/
  cursor : s.world.checkpoint = some q.text ∨ s.world.checkpoint = none ∧ s.StartIs q
  known : ∃ start, s.StartIs start ∧ s.Known start q

/-- A checkpoint is never empty text, so that `or` never skips one. -/
theorem Inv.nonemptyStr?_checkpoint (h : s.Inv item) :
    nonemptyStr? s.world.checkpoint = s.world.checkpoint := by
  cases hc : s.world.checkpoint with
  | none => rfl
  | some d =>
    obtain ⟨-, q, -, rfl, -, -⟩ := h.cursor d hc
    exact nonemptyStr?_eq_some_iff.mpr ⟨rfl, q.text_ne_empty⟩

theorem Inv.startsFrom (h : s.Inv item) {services : Services} {q : String} {w₁ : World}
    (hstart : StartsFrom services s.world q w₁)
    (hdefault : s.world.queryDate? = none →
      ∃ t : Timestamp, services.defaultStartDate = t.text ∧ t.fraction.length = digits) :
    Inv item { s with world := w₁ } ∧
      ∃ t : Timestamp, q = t.text ∧ QueriesFrom { s with world := w₁ } t := by
  have hchk := h.nonemptyStr?_checkpoint
  cases hstart with
  | found hq =>
    refine ⟨h, ?_⟩
    cases hc : s.world.checkpoint with
    | some d =>
      obtain ⟨start, t, ht, rfl, hdigits, hknown⟩ := h.cursor d hc
      have hqt : t.text = q := by
        rw [World.queryDate?, hchk, hc] at hq
        exact Option.some.inj hq
      exact ⟨t, hqt.symm, hdigits, Or.inl hc, start, ht, hknown⟩
    | none =>
      rw [World.queryDate?, hchk, hc] at hq
      have hsome : nonemptyStr? s.world.startDate ≠ none := fun hn ↦ by simp [hn] at hq
      obtain ⟨t, ht, hdigits⟩ := h.start hsome
      have hqt : t.text = q := Option.some.inj (Eq.trans (Eq.symm ht) hq)
      exact ⟨t, hqt.symm, hdigits, Or.inr ⟨hc, ht⟩, t, ht, Or.inl rfl⟩
  | defaulted hq =>
    obtain ⟨t, ht, hdigits⟩ := hdefault hq
    -- no date was found, so there is no checkpoint and nothing is promised yet
    have hnone : s.world.checkpoint = none := by
      cases hc : s.world.checkpoint with
      | none => rfl
      | some d =>
        rw [World.queryDate?, hchk, hc] at hq
        cases hq
    have hset : Deployment.StartIs { s with
        world := { s.world with startDate := some services.defaultStartDate } } t := by
      have hne := nonemptyStr?_eq_some_iff.mpr ⟨rfl, t.text_ne_empty⟩
      rw [StartIs, ht, hne, Option.map_some, ensureZ_text]
    refine ⟨?_, t, ht, hdigits, Or.inr ⟨hnone, hset⟩, t, hset, Or.inl rfl⟩
    exact
      { start := fun _ ↦ ⟨t, hset, hdigits⟩
        cursor := fun d hd ↦ absurd (hnone.symm.trans hd) (Option.some_ne_none d).symm
        server := fun _ q _ hq ↦ absurd (hnone.symm.trans hq) (Option.some_ne_none q.text).symm
        polled := fun v hv ↦ absurd hnone (h.polled v hv).1 }

/-! ## Completed polls -/

theorem readsDate_version (v : Version c api digits) :
    ReadsDate c (.obj v.fields) v.time.text := by
  refine ⟨v.fields, rfl, ?_⟩
  have htrue : (v.fields.getD (c.filter api).field).truthy = true := by
    simp [v.filtered, v.time.text_ne_empty]
  have hfirst : (c.filter api).field = "lastUpdateDateTime" ∨
      (v.fields.getD "lastUpdateDateTime").truthy = false := by
    by_cases hkey : "lastUpdateDateTime" = (c.filter api).field
    · exact Or.inl hkey.symm
    · exact Or.inr (by rw [v.only _ List.mem_cons_self hkey, Json.truthy_null])
  rw [lastUpdate_eq_of_truthy (filter_field_mem_updateFields c api) htrue hfirst, v.filtered]

theorem timed_version (v : Version c api digits) : Timed c api (.obj v.fields) where
  filterTime := ⟨v.time, v.fields, rfl, v.filtered⟩
  updateTime := by
    intro fields hfields key hkey htrue
    obtain rfl := Json.obj.inj hfields
    by_cases hfilter : key = (c.filter api).field
    · exact ⟨v.time, hfilter ▸ v.filtered⟩
    · simp [v.only key hkey hfilter] at htrue

section ReadTimes

variable {records : List Json} {q t : Timestamp}

/-- A time the loop reads off versions is the date queried from or the time of a version. -/
theorem eq_or_exists_of_readTime
    (hrecords : ∀ record ∈ records, ∃ v : Version c api digits, record = .obj v.fields)
    (h : ReadTime c q records t) :
    t = q ∨ ∃ v : Version c api digits, Json.obj v.fields ∈ records ∧ t = v.time := by
  rcases h with rfl | ⟨record, hrecord, ht⟩
  · exact Or.inl rfl
  · obtain ⟨v, rfl⟩ := hrecords record hrecord
    exact Or.inr ⟨v, hrecord, Timestamp.text_injective (ht.unique (readsDate_version v))⟩

theorem digits_eq_of_readTime
    (hrecords : ∀ record ∈ records, ∃ v : Version c api digits, record = .obj v.fields)
    (hq : q.fraction.length = digits) (h : ReadTime c q records t) :
    t.fraction.length = digits := by
  rcases eq_or_exists_of_readTime hrecords h with rfl | ⟨v, -, rfl⟩
  · exact hq
  · exact v.digits_eq

end ReadTimes

/-- What a completed poll achieves: all the server holds after the start date is written. -/
theorem Inv.written_of_ingested (h : s.Inv item) {q : Timestamp} (hq : s.QueriesFrom q)
    {records : List Json} {tenantId maxDate : String} {written : List Event}
    (htenant : tenantId ∈ s.tenants)
    (hrecords : ∀ record, record ∈ records ↔
      ∃ v ∈ s.server, q < v.time ∧ record = .obj v.fields)
    (hdone : Ingested c item tenantId records q.text maxDate written)
    {v : Version c api digits} (hv : v ∈ s.server) {start : Timestamp} (hstart : s.StartIs start)
    (hlt : start < v.time) : Written item s.tenants (s.world.index ++ written) v := by
  by_cases hqv : q < v.time
  · -- it was handed out now
    obtain ⟨events, hevents, rfl⟩ := hdone.events
    obtain ⟨es, hes, hbecome⟩ :=
      exists_of_forall₂_left hevents ((hrecords _).mpr ⟨v, hv, hqv, rfl⟩)
    exact ⟨tenantId, htenant, es, hbecome,
      (List.infix_of_mem_flatten hes).trans (List.suffix_append _ _).isInfix⟩
  · -- it is not past the checkpoint, and was written before
    have hle : v.time ≤ q := Timestamp.not_lt_iff.mp hqv
    rcases hq.cursor with hc | ⟨-, hc⟩
    · exact (h.server start q hstart hc v hv hlt hle).append_index written
    · obtain rfl := hstart.unique hc
      exact absurd hle (not_le_of_gt hlt)

theorem Inv.completed (h : s.Inv item) {services : Services} {q : Timestamp}
    (hq : s.QueriesFrom q) (hanswers : s.Answers services) {urls : ApiUrls}
    (hurls : urls.api = api) {token : Json} {tenantId : String} (htenant : tenantId ∈ s.tenants)
    {w : World} (hdone : Completed services c item tenantId
      (c.requestSince services.currentVersion urls token q.text) q.text s.world w) :
    Inv item { s with world := w, polled := s.polled ++ s.server } ∧
      ∃ M : Timestamp, w.checkpoint = some M.text ∧ q ≤ M := by
  obtain ⟨records, maxDate, written, hodata, hingested, rfl⟩ := hdone
  have hrecords := hanswers urls token q records hurls hq.digits_eq hodata
  have hversions : ∀ record ∈ records, ∃ v : Version c api digits, record = .obj v.fields :=
    fun record hrecord ↦
      have ⟨v, _, _, hv⟩ := (hrecords record).mp hrecord
      ⟨v, hv⟩
  have htimed : ∀ record ∈ records, Timed c api record := by
    intro record hrecord
    obtain ⟨v, rfl⟩ := hversions record hrecord
    exact timed_version v
  obtain ⟨M, rfl, hM, hmax⟩ := hingested.exists_textMax htimed
  have hMdigits := digits_eq_of_readTime hversions hq.digits_eq hM
  -- all times read have the same number of digits, so the greatest text is the latest time
  have hqM : q ≤ M := by
    rw [← Timestamp.not_lt_iff,
      ← Timestamp.text_lt_text_iff_lt (hMdigits.trans hq.digits_eq.symm), not_lt]
    exact hmax q (Or.inl rfl)
  obtain ⟨start, hstart, hknown⟩ := hq.known
  have hall : ∀ v ∈ s.server, ∀ start, s.StartIs start → start < v.time →
      Written item s.tenants (s.world.index ++ written) v := fun v hv start hstart hlt ↦
    h.written_of_ingested hq htenant hrecords hingested hv hstart hlt
  refine ⟨?_, M, rfl, hqM⟩
  exact
    { start := h.start
      cursor := by
        intro d hd
        obtain rfl := Option.some.inj hd
        refine ⟨start, M, hstart, rfl, hMdigits, ?_⟩
        rcases eq_or_exists_of_readTime hversions hM with rfl | ⟨v, hv, rfl⟩
        · exact hknown.imp id fun ⟨record, hrecord, ht⟩ ↦
            ⟨record, List.mem_append_left _ hrecord, ht⟩
        · exact Or.inr ⟨_, List.mem_append_right _ hv, v.fields, rfl, v.filtered⟩
      server := fun start _ hstart _ v hv hlt _ ↦ hall v hv start hstart hlt
      polled := by
        intro v hv
        refine ⟨Option.some_ne_none _, fun start hstart hlt ↦ ?_⟩
        rcases List.mem_append.mp hv with hv | hv
        · exact ((h.polled v hv).2 start hstart hlt).append_index written
        · exact hall v hv start hstart hlt }

/-! ## Steps and runs -/

theorem Inv.checkpointLE_refl (h : s.Inv item) : s.CheckpointLE s := by
  intro d hd
  obtain ⟨-, q, -, rfl, -, -⟩ := h.cursor d hd
  exact ⟨q, q, rfl, hd, le_rfl⟩

theorem CheckpointLE.trans {s t u : Deployment c api digits} (hst : s.CheckpointLE t)
    (htu : t.CheckpointLE u) : s.CheckpointLE u := by
  intro d hd
  obtain ⟨q, q', hq, hq', hle⟩ := hst d hd
  obtain ⟨q₁, q'', hq₁, hq'', hle'⟩ := htu _ hq'
  obtain rfl := Timestamp.text_injective hq₁
  exact ⟨q, q'', hq, hq'', hle.trans hle'⟩

theorem Inv.forget {polled : List (Version c api digits)} (h : s.Inv item)
    (hsub : polled ⊆ s.polled) : Inv item { s with polled := polled } where
  start := h.start
  cursor := h.cursor
  server := h.server
  polled := fun v hv ↦ h.polled v (hsub hv)

/-- However a poll ends, the invariant holds and the checkpoint is not moved back; if it ends with
its checkpoint stored, the invariant also answers for what the server holds. -/
theorem Inv.passEnds (hapi : ∀ a ∈ c.api? item, a = api) (h : s.Inv item) {services : Services}
    (hanswers : s.Answers services)
    (hdefault : s.world.queryDate? = none →
      ∃ t : Timestamp, services.defaultStartDate = t.text ∧ t.fraction.length = digits)
    (htenants : ∀ tenantId ∈ services.tenant? item, tenantId ∈ s.tenants)
    {r : Except PyError Json} {w : World} (hends : PassEnds services c item s.world r w) :
    Inv item { s with world := w } ∧ s.CheckpointLE { s with world := w } ∧
      ((∃ a, r = .ok a) → services.HandlerSucceeds →
        Inv item { s with world := w, polled := s.polled ++ s.server }) := by
  cases hends with
  | undated e => exact ⟨h, h.checkpointLE_refl, fun hr ↦ nomatch hr.choose_spec⟩
  | dated e hstart =>
    refine ⟨(h.startsFrom hstart hdefault).1, ?_, fun hr ↦ nomatch hr.choose_spec⟩
    intro d hd
    obtain ⟨q, q', hq, hq', hle⟩ := h.checkpointLE_refl d hd
    exact ⟨q, q', hq, hstart.same.1.trans hq', hle⟩
  | @queried q w₁ _ _ urls token tenantId hstart hurls htenant heither hdone =>
    obtain ⟨h₁, q, rfl, hq⟩ := h.startsFrom hstart hdefault
    have hurls' : urls.api = api := hapi _ hurls
    -- the date queried from is the checkpoint, if there is one
    have hcursor : ∀ d, s.world.checkpoint = some d → d = q.text := by
      intro d hd
      have hd₁ : w₁.checkpoint = some d := hstart.same.1.trans hd
      rcases hq.cursor with hc | ⟨hc, -⟩
      · exact Option.some.inj (hd₁.symm.trans hc)
      · cases hd₁.symm.trans hc
    have hcompleted : Completed services c item tenantId
        (c.requestSince services.currentVersion urls token q.text) q.text w₁ w → _ :=
      h₁.completed hq hanswers hurls' (htenants tenantId htenant)
    refine ⟨?_, ?_, fun hr hs ↦ (hcompleted (hdone hr hs)).1⟩
    · rcases heither with ⟨served, written, -, rfl⟩ | hc
      · exact h₁.extend served written
      · exact (hcompleted hc).1.forget (List.subset_append_left _ _)
    · intro d hd
      obtain rfl := hcursor d hd
      rcases heither with ⟨served, written, -, rfl⟩ | hc
      · exact ⟨q, q, rfl, hstart.same.1.trans hd, le_rfl⟩
      · obtain ⟨-, M, hM, hle⟩ := hcompleted hc
        exact ⟨q, M, rfl, hM, hle⟩

/-- **One action keeps the invariant and does not move the checkpoint back.** -/
theorem Inv.step (hapi : ∀ a ∈ c.api? item, a = api) (h : s.Inv item)
    {a : CollectorAction c api digits} {t : Deployment c api digits} (hok : s.Allowed a)
    (hstep : s.step item a = some t) : Inv item t ∧ s.CheckpointLE t := by
  cases a with
  | update v =>
    obtain rfl := Option.some.inj hstep
    exact ⟨h.update hok, h.checkpointLE_refl⟩
  | poll services prior =>
    have hends : Ends (c.stream services item prior) s.world (PassEnds services c item s.world) :=
      c.ends_stream prior
    -- the tenant is noted first; that alone changes nothing else
    have htenants : ∀ tenantId ∈ services.tenant? item,
        tenantId ∈ s.tenants ++ (services.tenant? item).toList := fun tenantId ht ↦
      List.mem_append_right _ (Option.mem_toList.mpr ht)
    have hpass : ∀ {r w}, PassEnds services c item s.world r w → _ :=
      (h.pollsFor (services.tenant? item).toList).passEnds hapi hok.1 hok.2 htenants
    rw [Deployment.step] at hstep
    cases hrun : c.stream services item prior s.world with
    | error e w =>
      rw [hrun] at hstep
      obtain rfl := Option.some.inj hstep
      obtain ⟨hinv, hle, -⟩ := hpass (hends.of_error hrun)
      exact ⟨hinv, hle⟩
    | ok token w =>
      rw [hrun] at hstep
      obtain rfl := Option.some.inj hstep
      obtain ⟨hinv, hle, hstored⟩ := hpass (hends.of_ok hrun)
      by_cases hs : services.HandlerSucceeds
      · simp only [hs, if_true]
        exact ⟨hstored ⟨token, rfl⟩ hs, hle⟩
      · simp only [hs, if_false]
        exact ⟨hinv, hle⟩

/-- **No loss.** Let the input resolve to the API, if it resolves to any. In every run of updates
and polls from an initial deployment, whichever polls stop and wherever, the checkpoint is never
moved back, and every version that was on the server at a poll that stored its checkpoint, updated
after the start date and not past the checkpoint, has been written to the index: all events it is to
become, for a tenant that a poll was for. -/
theorem no_loss (hapi : ∀ a ∈ c.api? item, a = api) {s t u : Deployment c api digits}
    {as bs : List (CollectorAction c api digits)} (hs : s.Initial)
    (hst : Run (step item) Allowed s as t) (htu : Run (step item) Allowed t bs u) :
    t.CheckpointLE u ∧ u.NoLoss item := by
  have hinv_step : ∀ {s : Deployment c api digits} {a t}, Inv item s → Allowed s a →
      step item s a = some t → Inv item t := fun h hok hstep ↦ (h.step hapi hok hstep).1
  have ht : Inv item t := hst.invariant hinv_step hs.inv
  refine ⟨?_, (htu.invariant hinv_step ht).noLoss⟩
  exact htu.relates (r := CheckpointLE) (fun _ h ↦ h.checkpointLE_refl) CheckpointLE.trans
    (fun h hok hstep ↦ h.step hapi hok hstep) ht

/-! ## A run

An alert is created a second after the start date and polled. -/

/-- The alert, updated at one second past midnight. -/
def alertPastMidnight : Version .alerts .api365 0 where
  id := "da1"
  time := { midnight [] (by decide) with second := 1, second_le := by decide }
  fields := [("id", .str "da1"), ("lastUpdateTime", .str "2024-01-01T00:00:01Z")]
  digits_eq := rfl
  filtered := congrArg Json.str (by decide)
  only := by
    intro key hkey hne
    rcases List.mem_cons.mp hkey with rfl | hkey
    · rfl
    · exact absurd (List.mem_singleton.mp hkey) hne

/-- The request for what was updated after midnight. -/
def midnightUrl : String := "https://api.securitycenter.microsoft.com/api/alerts" ++
  "?$expand=evidence&$filter=lastUpdateTime+gt+" ++ "2024-01-01T00:00:00Z"

/-- Services that answer that one request. -/
def servicesAtMidnight : Services :=
  { Services.handingOut [] with
    odata := fun request ↦
      if request.url = midnightUrl then .ok [.obj alertPastMidnight.fields]
      else .error (.httpError 404) }

def beforePoll : Deployment .alerts .api365 0 where
  world := worldAtMidnight
  server := [alertPastMidnight]
  polled := []
  tenants := []

def afterPoll : Deployment .alerts .api365 0 where
  world :=
    { checkpoint := some "2024-01-01T00:00:01Z"
      startDate := some "2024-01-01T00:00:00Z"
      index := [{
        data := .obj alertPastMidnight.fields
        index := generalItem.index
        source := "microsoft_defender_endpoint_atp_alerts"
        sourcetype := "ms:defender:atp:alerts" }]
      served := [.obj alertPastMidnight.fields] }
  server := [alertPastMidnight]
  polled := [alertPastMidnight]
  tenants := ["tenant"]

private theorem text_midnight : (midnight [] (by decide)).text = "2024-01-01T00:00:00Z" := by decide

private theorem suffix_toList_append (a b : String) : b.toList <:+ (a ++ b).toList := by
  rw [String.toList_append]
  exact List.suffix_append _ _

private theorem suffix_midnightUrl : "2024-01-01T00:00:00Z".toList <:+ midnightUrl.toList :=
  suffix_toList_append _ _

theorem beforePoll_answers : beforePoll.Answers servicesAtMidnight := by
  intro urls token q records _ hq hodata record
  simp only [servicesAtMidnight] at hodata
  split_ifs at hodata with hurl
  obtain rfl := Except.ok.inj hodata
  have hlen : (midnight [] (by decide)).text.toList.length = q.text.toList.length :=
    Timestamp.length_text hq.symm
  rw [text_midnight] at hlen
  have hquery : q.text.toList <:+ midnightUrl.toList := by
    rw [← hurl, Collector.requestSince, UpdateFilter.text]
    exact (suffix_toList_append _ _).trans (suffix_toList_append _ _)
  have htext :=
    (List.suffix_of_suffix_length_le suffix_midnightUrl hquery hlen.le).eq_of_length hlen
  rw [← text_midnight] at htext
  obtain rfl := Timestamp.text_injective (String.toList_injective htext)
  have hlt : midnight [] (by decide) < alertPastMidnight.time := by decide
  simp [beforePoll, hlt]

theorem no_loss_alertPastMidnight :
    beforePoll.CheckpointLE afterPoll ∧ afterPoll.NoLoss generalItem := by
  have hinitial : Initial { beforePoll with server := [] } :=
    { checkpoint := rfl
      served := rfl
      polled := rfl
      tenants := rfl
      start := fun _ ↦ ⟨midnight [] (by decide), congrArg some text_midnight.symm, rfl⟩ }
  have hupdate : Run (step generalItem) Allowed { beforePoll with server := [] }
      [.update alertPastMidnight] beforePoll :=
    .cons (fun _ h ↦ absurd h List.not_mem_nil) rfl (.nil _)
  have hpoll : Run (step generalItem) Allowed beforePoll [.poll servicesAtMidnight .null]
      afterPoll := by
    refine .cons ⟨beforePoll_answers, fun h ↦ ?_⟩ rfl (.nil _)
    exact absurd h (by decide)
  have hapi : Collector.alerts.api? generalItem = some .api365 := rfl
  have hall : ∀ a ∈ Collector.alerts.api? generalItem, a = .api365 := by
    rw [hapi]
    exact fun a h ↦ (Option.some.inj h).symm
  exact no_loss hall hinitial hupdate hpoll

end Deployment

end MsSecurity
