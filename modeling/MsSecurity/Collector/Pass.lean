import MsSecurity.Collector.Stream
import Mathlib.Data.List.Forall2

/-!
# What one pass can do

Everything later modules need about a pass of a collector is in `Collector.ends_stream`. A pass ends
before it has a date to query from, and then changes nothing; or it has one, and then it is
`Interrupted` or `Completed`. Only a completed pass moves the checkpoint, and by then every record
it was handed has been written.
-/

namespace MsSecurity

variable {services : Services} {c : Collector} {item : InputItem} {tenantId : String} {w : World}

/-! ## The date to query from -/

/-- The date `get_start_date` finds without setting one. -/
def World.queryDate? (w : World) : Option String :=
  match nonemptyStr? w.checkpoint with
  | some d => some d
  | none => (nonemptyStr? w.startDate).map ensureZ

/-- How `get_start_date` may return: it found a date, or it set the default one. -/
inductive StartsFrom (services : Services) : World → String → World → Prop
  | found {w : World} {q : String} : w.queryDate? = some q → StartsFrom services w q w
  | defaulted {w : World} : w.queryDate? = none →
      StartsFrom services w services.defaultStartDate
        { w with startDate := some services.defaultStartDate }

theorem StartsFrom.eq_getD {q : String} {w₁ : World} (h : StartsFrom services w q w₁) :
    q = w.queryDate?.getD services.defaultStartDate := by
  cases h with
  | found h => rw [h, Option.getD_some]
  | defaulted h => rw [h, Option.getD_none]

/-- Finding the date changes nothing but a missing `start_date`. -/
theorem StartsFrom.same {q : String} {w₁ : World} (h : StartsFrom services w q w₁) :
    w₁.checkpoint = w.checkpoint ∧ w₁.index = w.index ∧ w₁.served = w.served := by
  cases h <;> exact ⟨rfl, rfl, rfl⟩

theorem ends_getStartDate : Ends (getStartDate services) w fun r w' ↦ match r with
    | .ok q => StartsFrom services w q w'
    | .error _ => w' = w := by
  simp only [getStartDate, ends_bind, ends_attempt, ends_get]
  cases services.readCheckpoint with
  | some e => trivial
  | none =>
    cases hc : nonemptyStr? w.checkpoint with
    | some d => exact StartsFrom.found (by simp [World.queryDate?, hc])
    | none =>
      simp only [ends_bind, ends_get]
      cases hs : nonemptyStr? w.startDate with
      | some d => exact StartsFrom.found (by simp [World.queryDate?, hc, hs])
      | none =>
        simp only [ends_bind, ends_attempt, ends_modify]
        cases services.updateConf with
        | some e => trivial
        | none => exact StartsFrom.defaulted (by simp [World.queryDate?, hc, hs])

/-! ## Writing records -/

/-- The items of what a record has under `alerts`: a dictionary has its keys, text its
characters. -/
inductive Items : Json → List Json → Prop
  | arr (items : List Json) : Items (.arr items) items
  | obj (fields : Json.Object) : Items (.obj fields) (fields.map fun p ↦ .str p.1)
  | str (s : String) : Items (.str s) (s.toList.map fun c ↦ .str (String.ofList [c]))

theorem items_of_iter {v : Json} {items : List Json} (h : v.iter = .ok items) : Items v items := by
  cases v with
  | arr items' =>
    obtain rfl := Except.ok.inj h
    exact .arr _
  | obj fields =>
    obtain rfl := Except.ok.inj h
    exact .obj fields
  | str s =>
    obtain rfl := Except.ok.inj h
    exact .str s
  | _ => cases h

/-- What a record is to become, in this order: an incident becomes an event for each of its alerts
and one for what is left of it. -/
inductive BecomesEvents (item : InputItem) (tenantId : String) :
    Collector → Json → List Event → Prop
  | incident {fields : Json.Object} {value : Json} {alerts : List Json}
      (hvalue : Dict.get fields "alerts" = some value) (halerts : Items value alerts) :
      BecomesEvents item tenantId .incidents (.obj fields)
        (alerts.map (fun alert ↦
            { data := alert
              index := item.index
              source := "microsoft_365_defender_endpoint_incidents:" ++ tenantId
              sourcetype := item.sourcetype ++ ":alerts" }) ++
          [{ data := .obj (fields.filter fun p ↦ p.1 ≠ "alerts")
             index := item.index
             source := "microsoft_365_defender_endpoint_incidents:" ++ tenantId
             sourcetype := item.sourcetype }])
  | alert {fields : Json.Object} :
      BecomesEvents item tenantId .alerts (.obj fields)
        [{ data := .obj fields
           index := item.index
           source := "microsoft_defender_endpoint_atp_alerts"
           sourcetype := "ms:defender:atp:alerts" }]
  | machine {fields : Json.Object} :
      BecomesEvents item tenantId .machines (.obj fields)
        [{ data := .obj fields
           index := item.index
           source := "microsoft_defender_endpoint_machines"
           sourcetype := "ms:defender:machines" }]

/-- Whatever happens, the events written are `pre`, and the rest of the world is as it was. -/
def Wrote (w w' : World) (pre : List Event) : Prop := w' = { w with index := w.index ++ pre }

theorem Wrote.refl (w : World) : Wrote w w [] := by rw [Wrote, List.append_nil]

theorem Wrote.trans {w w' w'' : World} {es fs : List Event} (h : Wrote w w' es)
    (h' : Wrote w' w'' fs) : Wrote w w'' (es ++ fs) := by
  rw [Wrote] at *
  rw [h', h, List.append_assoc]

theorem ends_writeEvent {event : Event} : Ends (writeEvent services event) w fun r w' ↦
    match r with
    | .ok () => Wrote w w' [event]
    | .error _ => Wrote w w' [] := by
  simp only [writeEvent, ends_bind, ends_get, ends_attempt, ends_modify]
  cases services.writeEvent w.index event with
  | some e => exact Wrote.refl w
  | none => rfl

theorem ends_writeEvents {events : List Event} : Ends (writeEvents services events) w fun r w' ↦
    ∃ pre, Wrote w w' pre ∧ (r = .ok () → pre = events) := by
  induction events generalizing w with
  | nil => exact ⟨[], Wrote.refl w, fun _ ↦ rfl⟩
  | cons event events ih =>
    rw [writeEvents, ends_bind]
    refine ends_writeEvent.mono fun r w₁ hr ↦ ?_
    cases r with
    | error e => exact ⟨[], hr, fun h ↦ absurd h error_ne_ok⟩
    | ok u =>
      refine ih.mono fun r' w₂ hr' ↦ ?_
      obtain ⟨pre, hpre, hok⟩ := hr'
      exact ⟨event :: pre, hr.trans hpre, fun h ↦ by rw [hok h]⟩

theorem ends_writeEvent_one {event : Event} : Ends (writeEvent services event) w fun r w' ↦
    ∃ pre, Wrote w w' pre ∧ (r = .ok () → pre = [event]) :=
  ends_writeEvent.mono fun r w' hr ↦ by
    cases r with
    | ok u => exact ⟨_, hr, fun _ ↦ rfl⟩
    | error e => exact ⟨_, hr, fun h ↦ absurd h error_ne_ok⟩

theorem ends_writeRecord {fields : Json.Object} :
    Ends (writeRecord services c item tenantId fields) w fun r w' ↦
      ∃ pre, Wrote w w' pre ∧ (r = .ok () → BecomesEvents item tenantId c (.obj fields) pre) := by
  cases c with
  | alerts =>
    refine ends_writeEvent_one.mono fun r w' ⟨pre, hpre, hok⟩ ↦ ⟨pre, hpre, fun h ↦ ?_⟩
    exact hok h ▸ .alert
  | machines =>
    refine ends_writeEvent_one.mono fun r w' ⟨pre, hpre, hok⟩ ↦ ⟨pre, hpre, fun h ↦ ?_⟩
    exact hok h ▸ .machine
  | incidents =>
    -- an incident without `alerts` raises before anything of it is written
    simp only [writeRecord, ends_bind, ends_liftExcept]
    cases hvalue : fields.getItem "alerts" with
    | error e => exact ⟨[], Wrote.refl w, fun h ↦ absurd h error_ne_ok⟩
    | ok value =>
      dsimp only
      cases hiter : value.iter with
      | error e => exact ⟨[], Wrote.refl w, fun h ↦ absurd h error_ne_ok⟩
      | ok alerts =>
        refine ends_writeEvents.mono fun r w₁ hr ↦ ?_
        obtain ⟨pre, hpre, hok⟩ := hr
        cases r with
        | error e => exact ⟨pre, hpre, fun h ↦ absurd h error_ne_ok⟩
        | ok u =>
          refine ends_writeEvent_one.mono fun r' w₂ hr' ↦ ?_
          obtain ⟨pre', hpre', hok'⟩ := hr'
          refine ⟨pre ++ pre', hpre.trans hpre', fun h ↦ ?_⟩
          rw [hok rfl, hok' h]
          exact .incident (Dict.getItem_eq_ok_iff.mp hvalue) (items_of_iter hiter)

/-! ## The loop -/

/-- The loop reads `date` as the update time of a record. -/
def ReadsDate (c : Collector) (record : Json) (date : String) : Prop :=
  ∃ fields, record = .obj fields ∧ c.lastUpdate fields = .str date

/-- A finished loop: what it read and wrote for each record, and the date it ends with. -/
structure Ingested (c : Collector) (item : InputItem) (tenantId : String) (records : List Json)
    (queryDate maxDate : String) (written : List Event) : Prop where
  dates : ∃ dates, List.Forall₂ (ReadsDate c) records dates ∧
    maxDate = dates.foldl max queryDate
  events : ∃ events, List.Forall₂ (BecomesEvents item tenantId c) records events ∧
    written = events.flatten

theorem exists_of_forall₂_left {α β : Type*} {r : α → β → Prop} {as : List α} {bs : List β}
    (h : List.Forall₂ r as bs) {a : α} (ha : a ∈ as) : ∃ b ∈ bs, r a b := by
  induction h with
  | nil => exact absurd ha List.not_mem_nil
  | cons hab _ ih =>
    rcases List.mem_cons.mp ha with rfl | ha
    · exact ⟨_, List.mem_cons_self, hab⟩
    · obtain ⟨b, hb, hr⟩ := ih ha
      exact ⟨b, List.mem_cons_of_mem _ hb, hr⟩

theorem exists_of_forall₂_right {α β : Type*} {r : α → β → Prop} {as : List α} {bs : List β}
    (h : List.Forall₂ r as bs) {b : β} (hb : b ∈ bs) : ∃ a ∈ as, r a b :=
  exists_of_forall₂_left (List.Forall₂.flip h) hb

theorem foldl_max_eq_iff {α : Type*} [LinearOrder α] {a m : α} {l : List α} :
    l.foldl max a = m ↔ m ∈ a :: l ∧ ∀ b ∈ a :: l, b ≤ m := by
  rw [← Option.some_inj, ← List.max?_cons', List.max?_eq_some_iff]

theorem laterDate_eq_ok_iff {lastUpdate : Json} {maxDate date : String} :
    laterDate lastUpdate maxDate = .ok date ↔
      ∃ s, lastUpdate = .str s ∧ date = max maxDate s := by
  cases lastUpdate with
  | str s =>
    have hmax : (if maxDate < s then s else maxDate) = max maxDate s := by
      rw [max_def]
      split_ifs with h h' h'
      · rfl
      · exact absurd h.le h'
      · exact le_antisymm h' (not_lt.mp h)
      · rfl
    rw [laterDate, hmax, Except.ok.injEq]
    exact ⟨fun h ↦ ⟨s, rfl, h.symm⟩, fun ⟨t, ht, h⟩ ↦ by rw [h, Json.str.inj ht]⟩
  | _ => exact iff_of_false (fun h ↦ nomatch h) fun h ↦ nomatch h.choose_spec.1

theorem ends_ingest {records : List Json} {queryDate : String} :
    Ends (ingest services c item tenantId records queryDate) w fun r w' ↦
      ∃ written, Wrote w w' written ∧
        ∀ maxDate, r = .ok maxDate →
          Ingested c item tenantId records queryDate maxDate written := by
  induction records generalizing w queryDate with
  | nil =>
    refine ⟨[], Wrote.refl w, fun maxDate h ↦ ?_⟩
    obtain rfl := Except.ok.inj h
    exact ⟨⟨[], .nil, rfl⟩, ⟨[], .nil, rfl⟩⟩
  | cons record records ih =>
    simp only [ingest, ends_bind, ends_liftExcept]
    cases hobj : asObject record with
    | error e => exact ⟨[], Wrote.refl w, fun _ h ↦ absurd h error_ne_ok⟩
    | ok fields =>
      dsimp only
      cases hreq : required Json.truthy? (c.lastUpdate fields)
          "Field denoting last update not found in the API response" "" with
      | error e => exact ⟨[], Wrote.refl w, fun _ h ↦ absurd h error_ne_ok⟩
      | ok lastUpdate =>
        dsimp only
        cases hlater : laterDate lastUpdate queryDate with
        | error e => exact ⟨[], Wrote.refl w, fun _ h ↦ absurd h error_ne_ok⟩
        | ok date =>
          have hrecord : record = .obj fields := by
            cases record <;> simp_all [asObject]
          obtain ⟨s, rfl, rfl⟩ := laterDate_eq_ok_iff.mp hlater
          have hread : ReadsDate c record s := by
            refine ⟨fields, hrecord, ?_⟩
            rw [required_eq_ok_iff, Json.truthy?] at hreq
            split_ifs at hreq
            exact Option.some.inj hreq
          -- the date is folded before the record is written;
          -- if writing fails, the fold is lost with it
          refine ends_writeRecord.mono fun r w₁ hr ↦ ?_
          obtain ⟨pre, hpre, hok⟩ := hr
          cases r with
          | error e => exact ⟨pre, hpre, fun _ h ↦ absurd h error_ne_ok⟩
          | ok u =>
            refine ih.mono fun r' w₂ hr' ↦ ?_
            obtain ⟨written, hwritten, hdone⟩ := hr'
            refine ⟨pre ++ written, hpre.trans hwritten, fun maxDate h ↦ ?_⟩
            obtain ⟨⟨dates, hdates, hmax⟩, ⟨events, hevents, rfl⟩⟩ := hdone maxDate h
            exact ⟨⟨s :: dates, .cons hread hdates, hmax⟩,
              ⟨pre :: events, .cons (hrecord ▸ hok rfl) hevents, rfl⟩⟩

/-! ## The checkpoint -/

theorem ends_updateCheckpoint {answer : UpdateAnswer} {maxDate : String} :
    Ends (updateCheckpoint answer maxDate) w fun r w' ↦
      (w' = w ∨ w' = { w with checkpoint := some maxDate }) ∧
        (answer = .stored → r = .ok () ∧ w' = { w with checkpoint := some maxDate }) := by
  cases answer with
  | stored => exact ⟨Or.inr rfl, fun _ ↦ ⟨rfl, rfl⟩⟩
  | raised e written =>
    have hne : UpdateAnswer.raised e written ≠ .stored := by simp
    simp only [updateCheckpoint, ends_bind, ends_modify, ends_throw]
    cases written with
    | true => exact ⟨Or.inr rfl, fun h ↦ absurd h hne⟩
    | false => exact ⟨Or.inl rfl, fun h ↦ absurd h hne⟩

/-- Neither call of the handler fails. -/
def Services.HandlerSucceeds (services : Services) : Prop :=
  services.handlerRead = none ∧ services.handlerUpdate = .stored

instance (services : Services) : Decidable services.HandlerSucceeds :=
  inferInstanceAs (Decidable (_ ∧ _))

theorem ends_checkpointHandler {maxDate : String} :
    Ends (checkpointHandler services maxDate) w fun _ w' ↦
      (w' = w ∨ w' = { w with checkpoint := some maxDate }) ∧
        (services.HandlerSucceeds → w' = { w with checkpoint := some maxDate }) := by
  simp only [checkpointHandler, ends_bind, ends_exceptException, ends_attempt, ends_pure]
  cases hread : services.handlerRead with
  | some e =>
    have hno : ¬services.HandlerSucceeds := fun h ↦
      Option.some_ne_none e (hread.symm.trans h.1)
    simp [ends_pure, hno]
  | none =>
    simp only [if_true, ends_exceptException]
    refine ends_updateCheckpoint.mono fun r w' hr ↦ ?_
    obtain ⟨hw, hstored⟩ := hr
    cases r with
    | ok u => exact ⟨hw, fun h ↦ (hstored h.2).2⟩
    | error e =>
      have hno : ¬services.HandlerSucceeds := fun h ↦ error_ne_ok (hstored h.2).1
      exact ⟨fun _ ↦ ⟨hw, fun h ↦ absurd h hno⟩, fun _ ↦ ⟨hw, fun h ↦ absurd h hno⟩⟩

/-! ## The pass -/

/-- The tenant a pass is for: the input's own, or else that of its account. -/
def Services.tenant? (services : Services) (item : InputItem) : Option String :=
  match services.accountDetails item.azureAppAccount with
  | .ok account => (nonemptyStr? item.tenantId).or account.tenantId
  | .error _ => none

/-- The API family the input's environment or location stands for. -/
def Collector.api? (c : Collector) (item : InputItem) : Option Api :=
  match c with
  | incidents => (item.environment.bind urlsByEnvironment.get).map ApiUrls.api
  | alerts => (item.location.bind fun l ↦ urlsByLocation.get (relocate l)).map ApiUrls.api
  | machines => (item.location.bind fun l ↦ urlsByLocation.get (relocate l)).map ApiUrls.api

/-- A pass that stopped on its way or did not get its checkpoint stored: the records handed out and
the events written so far are all that is left of it. -/
def Interrupted (services : Services) (request : OdataRequest) (w w' : World) : Prop :=
  ∃ served written, (served = [] ∨ services.odata request = .ok served) ∧
    w' = { w with served := w.served ++ served, index := w.index ++ written }

/-- A pass that went through: every record handed out is written and the date is stored. -/
def Completed (services : Services) (c : Collector) (item : InputItem) (tenantId : String)
    (request : OdataRequest) (queryDate : String) (w w' : World) : Prop :=
  ∃ records maxDate written, services.odata request = .ok records ∧
    Ingested c item tenantId records queryDate maxDate written ∧
    w' = { w with
      served := w.served ++ records
      index := w.index ++ written
      checkpoint := some maxDate }

theorem ends_collectSince {urls : ApiUrls} {accessToken : Json} {queryDate : String} :
    let request := c.requestSince services.currentVersion urls accessToken queryDate
    Ends (collectSince services c item tenantId urls accessToken queryDate) w fun r w' ↦
      (Interrupted services request w w' ∨
        Completed services c item tenantId request queryDate w w') ∧
      (r = .ok () → services.HandlerSucceeds →
        Completed services c item tenantId request queryDate w w') := by
  intro request
  simp only [collectSince, getAtpAlertsOdata, ends_bind, ends_liftExcept]
  cases hodata : services.odata request with
  | error e =>
    exact ⟨Or.inl ⟨[], [], Or.inl rfl, by simp⟩, fun h ↦ absurd h error_ne_ok⟩
  | ok records =>
    simp only [ends_modify, ends_pure]
    refine ends_ingest.mono fun r w₁ hr ↦ ?_
    obtain ⟨written, hwrote, hdone⟩ := hr
    cases r with
    | error e =>
      exact ⟨Or.inl ⟨records, written, Or.inr hodata, hwrote⟩, fun h ↦ absurd h error_ne_ok⟩
    | ok maxDate =>
      refine ends_checkpointHandler.mono fun r' w₂ hr' ↦ ?_
      obtain ⟨hw₂, hstored⟩ := hr'
      have hcompleted : w₂ = { w₁ with checkpoint := some maxDate } →
          Completed services c item tenantId request queryDate w w₂ := fun h ↦
        ⟨records, maxDate, written, hodata, hdone maxDate rfl, by rw [h, hwrote]⟩
      refine ⟨?_, fun _ hs ↦ hcompleted (hstored hs)⟩
      rcases hw₂ with rfl | h
      · exact Or.inl ⟨records, written, Or.inr hodata, hwrote⟩
      · exact Or.inr (hcompleted h)

/-- How a pass may end. -/
inductive PassEnds (services : Services) (c : Collector) (item : InputItem) (w : World) :
    Except PyError Json → World → Prop
  /-- Before there was a date to query from. -/
  | undated (e : PyError) : PassEnds services c item w (.error e) w
  /-- Before there was a request to make. -/
  | dated {q : String} {w₁ : World} (e : PyError) :
      StartsFrom services w q w₁ → PassEnds services c item w (.error e) w₁
  /-- In the request, the loop or the checkpoint. -/
  | queried {q : String} {w₁ w' : World} {r : Except PyError Json} (urls : ApiUrls)
      (accessToken : Json) (tenantId : String) :
      StartsFrom services w q w₁ → c.api? item = some urls.api →
      services.tenant? item = some tenantId →
      (Interrupted services (c.requestSince services.currentVersion urls accessToken q) w₁ w' ∨
        Completed services c item tenantId
          (c.requestSince services.currentVersion urls accessToken q) q w₁ w') →
      ((∃ a, r = .ok a) → services.HandlerSucceeds → Completed services c item tenantId
        (c.requestSince services.currentVersion urls accessToken q) q w₁ w') →
      PassEnds services c item w r w'

/-- The last lines of `stream_events`, shared by all collectors. -/
private theorem ends_collectSince_return {urls : ApiUrls} {accessToken : Json} {q : String}
    {w w₁ : World} (hstart : StartsFrom services w q w₁) (hapi : c.api? item = some urls.api)
    (htenant : services.tenant? item = some tenantId) :
    Ends (do
      collectSince services c item tenantId urls accessToken q
      return accessToken) w₁ (PassEnds services c item w) := by
  rw [ends_bind]
  refine ends_collectSince.mono fun r w' hr ↦ ?_
  cases r with
  | ok u => exact .queried urls accessToken tenantId hstart hapi htenant hr.1 fun _ ↦ hr.2 rfl
  | error e =>
    exact .queried urls accessToken tenantId hstart hapi htenant hr.1 fun h ↦
      absurd h.choose_spec error_ne_ok

theorem ends_acquireToken {request : TokenRequest} {prior : Json} :
    Ends (acquireToken services request prior) w fun _ w' ↦ w' = w := by
  simp only [acquireToken, ends_exceptException, ends_liftExcept, ends_pure]
  cases services.accessToken request with
  | ok a => trivial
  | error e => exact ⟨fun _ ↦ trivial, fun _ ↦ trivial⟩

private theorem injectTenantId_api (urls : ApiUrls) (tenantId : String) :
    (injectTenantId urls tenantId).api = urls.api := rfl

theorem tenant?_eq_some {account : Account} {t : String}
    (haccount : services.accountDetails item.azureAppAccount = .ok account)
    (ht : nonemptyStr? (orStr item.tenantId account.tenantId) = some t) :
    services.tenant? item = some t := by
  obtain ⟨ht, -⟩ := nonemptyStr?_eq_some_iff.mp ht
  rw [Services.tenant?, haccount, ← ht]
  exact (orStr_eq_or _ _).symm

theorem ends_streamIncidents {prior : Json} :
    Ends (streamIncidents services item prior) w (PassEnds services .incidents item w) := by
  simp only [streamIncidents, ends_bind, ends_liftExcept]
  cases haccount : services.accountDetails item.azureAppAccount with
  | error e => exact .undated e
  | ok account =>
    refine ends_getStartDate.mono fun r w₁ hr ↦ ?_
    cases r with
    | error e =>
      obtain rfl : w₁ = w := hr
      exact .undated e
    | ok q =>
      have hstart : StartsFrom services w q w₁ := hr
      dsimp only
      cases hscope : item.urlsOfEnvironment (orStr item.tenantId account.tenantId) with
      | error e => exact .dated e hstart
      | ok scope =>
        obtain ⟨environment, tenantId, urls⟩ := scope
        refine ends_acquireToken.mono fun r w₂ hw₂ ↦ ?_
        obtain rfl : w₂ = w₁ := hw₂
        cases r with
        | error e => exact .dated e hstart
        | ok accessToken =>
          dsimp only
          split
          · obtain ⟨henv, ht, u, hu, rfl⟩ := InputItem.urlsOfEnvironment_eq_ok_iff.mp hscope
            refine ends_collectSince_return hstart ?_ (tenant?_eq_some haccount ht)
            obtain ⟨henv, -⟩ := nonemptyStr?_eq_some_iff.mp henv
            simp [Collector.api?, henv, hu, injectTenantId_api]
          · exact .dated _ hstart

theorem ends_streamByLocation {addDefault : Bool} {prior : Json}
    (hapi : c.api? item =
      (item.location.bind fun l ↦ urlsByLocation.get (relocate l)).map ApiUrls.api) :
    Ends (streamByLocation c addDefault services item prior) w (PassEnds services c item w) := by
  simp only [streamByLocation, ends_bind, ends_liftExcept]
  cases haccount : services.accountDetails item.azureAppAccount with
  | error e => exact .undated e
  | ok account =>
    dsimp only
    cases hurls : item.urlsOfLocation (orStr item.tenantId account.tenantId) with
    | error e => exact .undated e
    | ok urls =>
      refine ends_acquireToken.mono fun r w₁ hw₁ ↦ ?_
      obtain rfl : w₁ = w := hw₁
      cases r with
      | error e => exact .undated e
      | ok accessToken =>
        dsimp only
        split
        · rw [ends_bind]
          refine ends_getStartDate.mono fun r w₂ hr ↦ ?_
          cases r with
          | error e =>
            obtain rfl : w₂ = w₁ := hr
            exact .undated e
          | ok q =>
            obtain ⟨t, u, ht, hu, rfl⟩ := InputItem.urlsOfLocation_eq_ok_iff.mp hurls
            have htenant := tenant?_eq_some haccount ht
            rw [(nonemptyStr?_eq_some_iff.mp ht).1, Option.getD_some]
            refine ends_collectSince_return hr ?_ htenant
            simp [hapi, hu, injectTenantId_api]
        · exact .undated _

/-- **What one pass can do.** -/
theorem Collector.ends_stream (c : Collector) (prior : Json) :
    Ends (c.stream services item prior) w (PassEnds services c item w) :=
  match c with
  | incidents => ends_streamIncidents
  | alerts => ends_streamByLocation rfl
  | machines => ends_streamByLocation rfl

/-- A pass that ended normally, its checkpoint stored, was completed. -/
theorem Collector.stream_completed {prior accessToken : Json} {w' : World}
    (hrun : c.stream services item prior w = .ok accessToken w')
    (hstore : services.HandlerSucceeds) :
    ∃ q w₁ urls token tenantId, StartsFrom services w q w₁ ∧ c.api? item = some urls.api ∧
      Completed services c item tenantId
        (c.requestSince services.currentVersion urls token q) q w₁ w' := by
  have hends := (c.ends_stream prior).of_ok hrun
  cases hends with
  | queried urls token tenantId hstart hapi _ _ hdone =>
    exact ⟨_, _, urls, token, tenantId, hstart, hapi, hdone ⟨_, rfl⟩ hstore⟩

end MsSecurity
