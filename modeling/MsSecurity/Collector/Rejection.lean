import MsSecurity.Collector.HttpErrors
import MsSecurity.Collector.Pass

/-!
# Records that are rejected

A collector requires some fields of every record and raises where one is missing, so that the run
ends at that record. The incidents, alerts and machines collectors look at all of them before they
write; the simulations collector requires the `completionDateTime` of a record, which it may have
from the report that is merged into it, only after the record has been written.

## Main results

* `Requests.stream_eq`: an iteration gets the records, and is then the loop and the checkpoint.
* `Requests.rejected_iff`: a run that ends at a rejected record has written what the records before
  it become, and nothing else, exactly when it is not the `completionDateTime` that is missing.
-/

namespace MsSecurity

/-! ## The loops -/

theorem ingest_append {services : Services} {c : Collector} {item : InputItem} {tenantId : String}
    (before after : List Json) (date : String) :
    ingest services c item tenantId (before ++ after) date =
      ingest services c item tenantId before date >>= ingest services c item tenantId after := by
  induction before generalizing date with
  | nil => rfl
  | cons record before ih => simp only [List.cons_append, ingest, ih, bind_assoc]

namespace Requests

/-- The collectors that ingest the records of a response one by one. -/
inductive RecordCollector
  | updates (c : Collector)
  | simulations
  deriving DecidableEq

def RecordCollector.toRest : RecordCollector → RestCollector
  | updates c => .updates c
  | simulations => .simulations

/-- What the loop body reads. -/
structure LoopContext where
  services : IterationServices
  item : InputItem
  tenantId : String
  urls : ApiUrls
  accessToken : Json

def IterationState.index (s : IterationState) : List Event := s.world.index

/-- `for record in records: ...`. -/
def RecordCollector.loop (ctx : LoopContext) (c : RecordCollector) (records : List Json)
    (date : String) : Iterate String :=
  match c with
  | updates c => onWorld (ingest ctx.services.toServices c ctx.item ctx.tenantId records date)
  | simulations =>
    ingestSimulations ctx.services ctx.item ctx.tenantId ctx.urls ctx.accessToken records date

theorem onWorld_bind {α β : Type} (x : Collect α) (f : α → Collect β) :
    onWorld (x >>= f) = onWorld x >>= fun a ↦ onWorld (f a) := by
  unfold onWorld
  refine zoom_bind ?_ ?_ x f
  · exact fun _ _ ↦ rfl
  · exact fun _ _ _ ↦ rfl

theorem RecordCollector.loop_append (ctx : LoopContext) (c : RecordCollector)
    (before after : List Json) (date : String) :
    c.loop ctx (before ++ after) date = c.loop ctx before date >>= c.loop ctx after := by
  cases c with
  | updates c => rw [loop, ingest_append, onWorld_bind]; rfl
  | simulations =>
    simp only [loop]
    induction before generalizing date with
    | nil => rfl
    | cons record before ih => simp only [List.cons_append, ingestSimulations, ih, bind_assoc]

/-! ## The record and its report -/

/-- What `d.update(report)` sets, in this order: the entries of a dictionary, or the pairs that any
other report consists of. -/
def Entries (services : IterationServices) : Json → List (String × Json) → Prop
  | .obj fields, entries => entries = fields
  | report, entries => ∃ items, Items report items ∧ List.Forall₂ (fun item entry ↦
      ∃ key, Items item [key, entry.2] ∧ keyText services key = .ok entry.1) items entries

/-- `merged` has under each key what `entries` set there last, and else what the record has. -/
def Merges (fields : Json.Object) (entries : List (String × Json)) (merged : Json.Object) : Prop :=
  ∀ key, Dict.get merged key = (Dict.get entries.reverse key).or (Dict.get fields key)

theorem get_setItem (d : Json.Object) (key : String) (v : Json) (key' : String) :
    Dict.get (setItem d key v) key' = if key' = key then some v else Dict.get d key' := by
  rw [setItem]
  split_ifs with hany hkey hkey
  · subst hkey
    induction d with
    | nil => simp at hany
    | cons p d ih =>
      obtain ⟨k, u⟩ := p
      by_cases hk : k = key'
      · simp [Dict.get, hk]
      · have hrest : (d.any fun p ↦ p.1 = key') = true := by simpa [hk] using hany
        simpa [Dict.get, hk, List.lookup_cons, beq_false_of_ne (Ne.symm hk)] using ih hrest
  · clear hany
    induction d with
    | nil => rfl
    | cons p d ih =>
      obtain ⟨k, u⟩ := p
      by_cases hk : k = key
      · subst hk
        simpa [Dict.get, List.lookup_cons, beq_false_of_ne hkey] using ih
      · rw [Dict.get, Dict.get, List.map_cons, if_neg hk, List.lookup_cons, List.lookup_cons]
        split
        · rfl
        · exact ih
  · subst hkey
    have hnone : List.lookup key' d = none := by
      rw [List.lookup_eq_none_iff]
      intro p hp
      have hne : p.1 ≠ key' := fun h ↦ hany (List.any_eq_true.mpr ⟨p, hp, decide_eq_true h⟩)
      exact bne_iff_ne.mpr (Ne.symm hne)
    rw [Dict.get, List.lookup_append, hnone]
    simp
  · rw [Dict.get, List.lookup_append]
    simp [Dict.get, List.lookup_cons, beq_false_of_ne hkey]

theorem merges_foldl (entries : List (String × Json)) (fields : Json.Object) :
    Merges fields entries (entries.foldl (fun d p ↦ setItem d p.1 p.2) fields) := by
  intro key
  induction entries generalizing fields with
  | nil => rfl
  | cons p entries ih =>
    obtain ⟨k, v⟩ := p
    have hsingle : Dict.get [(k, v)] key = if key = k then some v else none := by
      rw [Dict.get, List.lookup_cons]
      split_ifs with hk
      · rw [beq_iff_eq.mpr hk]
      · rw [beq_false_of_ne hk]
        rfl
    have happend : Dict.get (entries.reverse ++ [(k, v)]) key =
        (Dict.get entries.reverse key).or (Dict.get [(k, v)] key) := List.lookup_append
    rw [List.foldl_cons, ih, get_setItem, List.reverse_cons, happend, hsingle, Option.or_assoc]
    split_ifs
    · rfl
    · rfl

theorem items_of_pairOf {services : IterationServices} {item : Json} {entry : String × Json}
    (h : pairOf services item = .ok entry) :
    ∃ key, Items item [key, entry.2] ∧ keyText services key = .ok entry.1 := by
  obtain ⟨items, hitems, h⟩ := bind_eq_ok_iff.mp h
  match items, h with
  | [key, value], h =>
    obtain ⟨text, htext, h⟩ := bind_eq_ok_iff.mp h
    obtain rfl := Except.ok.inj h
    exact ⟨key, items_of_iter hitems, htext⟩

theorem forall₂_of_mapM {β γ : Type} {f : β → Except PyError γ} {bs : List β} {cs : List γ}
    (h : bs.mapM f = .ok cs) : List.Forall₂ (fun b c ↦ f b = .ok c) bs cs := by
  induction bs generalizing cs with
  | nil =>
    obtain rfl := Except.ok.inj h
    exact .nil
  | cons b bs ih =>
    rw [List.mapM_cons] at h
    obtain ⟨c, hc, h⟩ := bind_eq_ok_iff.mp h
    obtain ⟨cs', hcs, h⟩ := bind_eq_ok_iff.mp h
    obtain rfl := Except.ok.inj h
    exact .cons hc (ih hcs)

theorem merges_of_update {services : IterationServices} {fields merged : Json.Object}
    {report : Json} (h : update services fields report = .ok merged) :
    ∃ entries, Entries services report entries ∧ Merges fields entries merged := by
  have hpairs : ∀ {x : Except PyError (List (String × Json))}, (do
      let pairs ← x
      return pairs.foldl (fun d (p : String × Json) ↦ setItem d p.1 p.2) fields) = .ok merged →
      ∃ entries, x = .ok entries ∧ Merges fields entries merged := fun h ↦ by
    obtain ⟨entries, hentries, h⟩ := bind_eq_ok_iff.mp h
    obtain rfl := Except.ok.inj h
    exact ⟨entries, hentries, merges_foldl entries fields⟩
  cases report with
  | obj pairs =>
    obtain ⟨entries, hentries, hmerges⟩ := hpairs (x := pure pairs) h
    exact ⟨entries, (Except.ok.inj hentries).symm, hmerges⟩
  | _ =>
    obtain ⟨items, hitems, h⟩ := bind_eq_ok_iff.mp h
    obtain ⟨entries, hentries, hmerges⟩ := hpairs h
    exact ⟨entries, ⟨items, items_of_iter hitems,
      (forall₂_of_mapM hentries).imp fun _ _ ↦ items_of_pairOf⟩, hmerges⟩

/-! ## What the records become -/

/-- What simulations are to become, where the report of a simulation is found at `template`. Each is
asked for its report once, after the requests `asked`, and what it becomes is the record with the
report that the server answered with; `pages` are the requests in the end. -/
inductive SimulationsBecome (services : IterationServices) (item : InputItem)
    (tenantId template : String) : List Odata.PageRequest → List Json → List Event →
      List Odata.PageRequest → Prop
  | nil {asked : List Odata.PageRequest} :
      SimulationsBecome services item tenantId template asked [] [] asked
  | cons {asked pages : List Odata.PageRequest} {request : Odata.PageRequest} {report : Json}
      {fields merged : Json.Object} {entries : List (String × Json)} {records : List Json}
      {events : List Event}
      (hurl : request.url = formatOne template (formatArg services (Json.Object.getD fields "id")))
      (hanswer : services.get asked request = .success (.ok report))
      (hentries : Entries services report entries) (hmerges : Merges fields entries merged)
      (hrest : SimulationsBecome services item tenantId template (asked ++ [request]) records events
        pages) :
      SimulationsBecome services item tenantId template asked (.obj fields :: records)
        ({ data := .obj merged
           index := item.index
           source := "microsoft_defender_endpoint_simulations:" ++ tenantId
           sourcetype := item.sourcetype } :: events) pages

/-- `events` are what the records are to become. -/
def Become (ctx : LoopContext) (c : RecordCollector) (asked : List Odata.PageRequest)
    (records : List Json) (events : List Event) (pages : List Odata.PageRequest) : Prop :=
  match c with
  | .updates c => ∃ each, List.Forall₂ (BecomesEvents ctx.item ctx.tenantId c) records each ∧
      events = each.flatten
  | .simulations => SimulationsBecome ctx.services ctx.item ctx.tenantId ctx.urls.simulationReport
      asked records events pages

/-- The tenant of an iteration: the stanza's own, which a simulations stanza does not have, or else
that of the account. -/
def RecordCollector.tenant? (c : RecordCollector) (services : IterationServices) (stanza : Stanza) :
    Option String :=
  match getAccountDetails services.accountConf stanza.azureAppAccount with
  | .ok account =>
    match c with
    | .updates _ => (nonemptyStr? stanza.tenantId).or account.tenantId
    | .simulations => account.tenantId
  | .error _ => none

/-- The loop reads what belongs to the stanza. -/
structure LoopContext.BelongsTo (ctx : LoopContext) (c : RecordCollector)
    (services : IterationServices) (stanza : Stanza) : Prop where
  services_eq : ctx.services = services
  item_eq : ctx.item = stanza.toInputItem
  tenant?_eq : c.tenant? services stanza = some ctx.tenantId
  simulationReport_eq : c = .simulations → ∃ urls, stanza.environment.bind urlsByEnvironment.get =
    some urls ∧ ctx.urls.simulationReport = urls.simulationReport

/-- The index has got what the records are to become, for this stanza, and nothing else. -/
def IngestedExactly (ctx : LoopContext) (c : RecordCollector) (services : IterationServices)
    (stanza : Stanza) (records : List Json) (s s' : IterationState) : Prop :=
  ctx.BelongsTo c services stanza ∧ ∃ asked events, Become ctx c asked records events s'.pages ∧
    s'.world.index = s.world.index ++ events

variable {ctx : LoopContext} {c : RecordCollector}

theorem index_of_writeEvent {services : Services} {event : Event} {s s' : IterationState}
    (h : onWorld (writeEvent services event) s = .ok () s') :
    s'.world.index = s.world.index ++ [event] := by
  have hends : Ends (onWorld (writeEvent services event)) s fun r s' ↦
      r = .ok () → s'.world.index = s.world.index ++ [event] := by
    rw [onWorld, ends_zoom]
    refine ends_writeEvent.mono fun r w hr hok ↦ ?_
    cases r with
    | ok u =>
      change w.index = _
      rw [hr]
    | error e => cases hok
  exact hends.of_ok h rfl

theorem preserves_onPages {α : Type} (x : Odata.Paging α) :
    Preserves IterationState.world (onPages x) := by
  unfold onPages
  refine preserves_zoom ?_ x
  exact fun _ _ ↦ rfl

theorem getSimulationReport_eq_ok {services : IterationServices} {accessToken report : Json}
    {url : String} {s s' : IterationState}
    (h : onPages (getSimulationReport services accessToken url) s = .ok report s') :
    ∃ request, request.url = url ∧ services.get s.pages request = .success (.ok report) ∧
      s'.pages = s.pages ++ [request] := by
  have hends : Ends (onPages (getSimulationReport services accessToken url)) s fun r s' ↦
      ∀ report, r = .ok report → ∃ request, request.url = url ∧
        services.get s.pages request = .success (.ok report) ∧
          s'.pages = s.pages ++ [request] := by
    rw [onPages, ends_zoom, getSimulationReport, ends_bind, Odata.ends_raising]
    cases services.proxy with
    | error e => exact fun _ h ↦ absurd h error_ne_ok
    | ok proxies =>
      dsimp only [Except.mapError]
      rw [Odata.ends_tryCatch_reraise, Odata.ends_getPage]
      intro report hreport
      refine ⟨⟨url, accessToken, some (userAgent services), proxies⟩, rfl, ?_, rfl⟩
      dsimp only [IterationServices.odata] at hreport
      cases hget : services.get s.pages ⟨url, accessToken, some (userAgent services), proxies⟩ with
      | success json =>
        rw [hget] at hreport
        cases json with
        | ok v =>
          obtain rfl := Except.ok.inj hreport
          rfl
        | error e => cases hreport
      | errorStatus status json =>
        rw [hget] at hreport
        cases hreport
      | raised e =>
        rw [hget] at hreport
        cases hreport
  exact hends.of_ok h report rfl

theorem pages_onWorld {α : Type} {x : Collect α} {a : α} {s s' : IterationState}
    (h : onWorld x s = .ok a s') : s'.pages = s.pages := by
  have hkept : Preserves IterationState.pages (onWorld x) := by
    unfold onWorld
    refine preserves_zoom ?_ x
    exact fun _ _ ↦ rfl
  exact hkept.of_ok h

/-- A loop over simulations that returns has written what they are to become. -/
theorem become_of_ingestSimulations {records : List Json} {date maxDate : String}
    {s s' : IterationState}
    (h : RecordCollector.simulations.loop ctx records date s = .ok maxDate s') :
    ∃ events, Become ctx .simulations s.pages records events s'.pages ∧
      s'.world.index = s.world.index ++ events := by
  induction records generalizing date s with
  | nil =>
    cases h
    exact ⟨[], .nil, (List.append_nil _).symm⟩
  | cons record records ih =>
    rw [RecordCollector.loop, ingestSimulations] at h
    simp only [bind_eq_ok_iff_exists, liftExcept_eq_ok_iff] at h
    obtain ⟨fields, _, ⟨hfields, rfl⟩, id, _, ⟨hid, rfl⟩, report, s₁, hreport, merged, _,
      ⟨hmerged, rfl⟩, u, s₂, hwrite, completed, _, ⟨hcompleted, rfl⟩, date', _, ⟨hdate, rfl⟩,
      hrest⟩ := h
    obtain ⟨events, hevents, hindex⟩ := ih hrest
    have hworld : s₁.world = s.world := (preserves_onPages _).of_ok hreport
    obtain ⟨request, hurl, hanswer, hpages⟩ := getSimulationReport_eq_ok hreport
    obtain ⟨entries, hentries, hmerges⟩ := merges_of_update hmerged
    obtain rfl := asObject_eq_ok_iff.mp hfields
    have hvalue : id = Json.Object.getD fields "id" := by
      rw [required_eq_ok_iff, Json.truthy?] at hid
      split_ifs at hid
      exact (Option.some.inj hid).symm
    rw [pages_onWorld hwrite, hpages] at hevents
    refine ⟨_ :: events, .cons (hurl.trans (by rw [hvalue])) hanswer hentries hmerges hevents, ?_⟩
    rw [hindex, index_of_writeEvent hwrite, hworld, List.append_assoc]
    rfl

theorem become_of_loop {records : List Json} {date maxDate : String} {s s' : IterationState}
    (h : c.loop ctx records date s = .ok maxDate s') :
    ∃ events, Become ctx c s.pages records events s'.pages ∧
      s'.world.index = s.world.index ++ events := by
  cases c with
  | simulations => exact become_of_ingestSimulations h
  | updates c =>
    have hends : Ends (onWorld (ingest ctx.services.toServices c ctx.item ctx.tenantId records
        date)) s fun r s' ↦ ∀ maxDate, r = .ok maxDate →
          ∃ events, Become ctx (.updates c) s.pages records events s'.pages ∧
            s'.world.index = s.world.index ++ events := by
      rw [onWorld, ends_zoom]
      refine ends_ingest.mono fun r w ⟨written, hwrote, hdone⟩ maxDate' hok ↦ ?_
      cases r with
      | error e => cases hok
      | ok maxDate => exact ⟨written, (hdone maxDate rfl).events, congrArg World.index hwrote⟩
    exact hends.of_ok h maxDate rfl

/-! ## A record that lacks a field -/

/-- The fields that the collectors require; the first one goes by several names. -/
inductive Missing
  | lastUpdate
  | alerts
  | id
  | completionDateTime
  deriving DecidableEq

/-- The URL of the report of a simulation. -/
def LoopContext.reportUrl (ctx : LoopContext) (simulationId : Json) : String :=
  formatOne ctx.urls.simulationReport (formatArg ctx.services simulationId)

/-- The loop, at a record, raises because this field is missing or false. For the last one that is
known when the report has been merged into the record and the event has been written. -/
inductive Lacks (ctx : LoopContext) (s : IterationState) :
    RecordCollector → Json → Missing → Prop
  | lastUpdate {c : Collector} {fields : Json.Object}
      (h : (c.lastUpdate fields).truthy = false) :
      Lacks ctx s (.updates c) (.obj fields) .lastUpdate
  | alerts {fields : Json.Object} {date : String}
      (hdate : Collector.incidents.lastUpdate fields = .str date) (hnonempty : date ≠ "")
      (h : Dict.get fields "alerts" = none) :
      Lacks ctx s (.updates .incidents) (.obj fields) .alerts
  | id {fields : Json.Object} (h : (Json.Object.getD fields "id").truthy = false) :
      Lacks ctx s .simulations (.obj fields) .id
  | completionDateTime {fields merged : Json.Object} {report : Json} {proxies : Option Proxies}
      (hid : (Json.Object.getD fields "id").truthy = true)
      (hproxy : ctx.services.proxy = .ok proxies)
      (hanswer : ctx.services.get s.pages ⟨ctx.reportUrl (Json.Object.getD fields "id"),
        ctx.accessToken, some (userAgent ctx.services), proxies⟩ = .success (.ok report))
      (hmerged : update ctx.services fields report = .ok merged)
      (hwrite : ctx.services.writeEvent s.world.index
        { data := .obj merged
          index := ctx.item.index
          source := "microsoft_defender_endpoint_simulations:" ++ ctx.tenantId
          sourcetype := ctx.item.sourcetype } = none)
      (h : (Json.Object.getD merged "completionDateTime").truthy = false) :
      Lacks ctx s .simulations (.obj fields) .completionDateTime

theorem required_of_not_truthy {v : Json} (h : v.truthy = false) (errorMsg name : String) :
    required Json.truthy? v errorMsg name =
      .error (.valueError ((if name ≠ "" then name ++ ": " else "") ++ errorMsg)) := by
  rw [required, Json.truthy?, if_neg (by simp [h])]

theorem required_of_truthy {v : Json} (h : v.truthy = true) (errorMsg name : String) :
    required Json.truthy? v errorMsg name = .ok v := by
  rw [required, Json.truthy?, if_pos h]

/-- The collectors look at most fields before they write. -/
theorem ends_loop_of_lacks {s : IterationState} {record : Json} {missing : Missing}
    (h : Lacks ctx s c record missing) (hne : missing ≠ .completionDateTime) (after : List Json)
    (date : String) : Ends (c.loop ctx (record :: after) date) s fun r s' ↦
      (∃ e, r = .error e) ∧ s'.world.index = s.world.index ∧ s'.pages = s.pages := by
  cases h with
  | lastUpdate h =>
    rw [RecordCollector.loop, onWorld, ends_zoom, ingest, ends_bind, ends_liftExcept]
    dsimp only [asObject]
    rw [ends_bind, ends_liftExcept, required_of_not_truthy h]
    exact ⟨⟨_, rfl⟩, rfl, rfl⟩
  | @alerts fields updated hdate hnonempty h =>
    have htruthy : (Json.str updated).truthy = true := decide_eq_true hnonempty
    rw [RecordCollector.loop, onWorld, ends_zoom, ingest, ends_bind, ends_liftExcept]
    dsimp only [asObject]
    rw [ends_bind, ends_liftExcept, hdate, required_of_truthy htruthy]
    dsimp only
    rw [ends_bind, ends_liftExcept]
    dsimp only [laterDate]
    rw [ends_bind, writeRecord, ends_bind, ends_liftExcept, Dict.getItem, h]
    exact ⟨⟨_, rfl⟩, rfl, rfl⟩
  | id h =>
    rw [RecordCollector.loop, ingestSimulations, ends_bind, ends_liftExcept]
    dsimp only [asObject]
    rw [ends_bind, ends_liftExcept, required_of_not_truthy h]
    exact ⟨⟨_, rfl⟩, rfl, rfl⟩
  | completionDateTime => exact absurd rfl hne

/-- A simulation without a completion time is in the index when that is found out. -/
theorem ends_loop_of_lacks_completionDateTime {s : IterationState} {record : Json}
    (h : Lacks ctx s c record .completionDateTime) (after : List Json) (date : String) :
    c = .simulations ∧ ∃ event, Ends (c.loop ctx (record :: after) date) s fun r s' ↦
      (∃ e, r = .error e) ∧ s'.world.index = s.world.index ++ [event] := by
  cases h with
  | @completionDateTime fields merged report proxies hid hproxy hanswer hmerged hwrite h =>
    refine ⟨rfl, simulationEvent ctx.item ctx.tenantId merged, ?_⟩
    have hreport : Ends (onPages (getSimulationReport ctx.services ctx.accessToken
        (formatOne ctx.urls.simulationReport
          (formatArg ctx.services (Json.Object.getD fields "id"))))) s fun r s' ↦
        r = .ok report ∧ s'.world = s.world := by
      have hget : ctx.services.odata.get s.pages ⟨ctx.reportUrl (Json.Object.getD fields "id"),
        ctx.accessToken, some (userAgent ctx.services), proxies⟩ = .success (.ok report) := hanswer
      rw [onPages, ends_zoom, getSimulationReport, ends_bind, Odata.ends_raising, hproxy]
      dsimp only [Except.mapError]
      rw [Odata.ends_tryCatch_reraise, Odata.ends_getPage, ← LoopContext.reportUrl, hget]
      exact ⟨rfl, rfl⟩
    rw [RecordCollector.loop, ingestSimulations, ends_bind, ends_liftExcept]
    dsimp only [asObject]
    rw [ends_bind, ends_liftExcept, required_of_truthy hid]
    dsimp only
    rw [ends_bind]
    refine hreport.mono ?_
    rintro _ s' ⟨rfl, hworld⟩
    dsimp only
    rw [ends_bind, ends_liftExcept, hmerged]
    dsimp only
    rw [ends_bind, onWorld, ends_zoom, writeEvent, ends_bind, ends_get]
    dsimp only
    rw [ends_bind, ends_attempt, hworld, show ctx.services.toServices.writeEvent s.world.index
      (simulationEvent ctx.item ctx.tenantId merged) = none from hwrite]
    -- the event is in the index before the field is looked at
    dsimp only
    rw [ends_modify]
    dsimp only [Except.mapError]
    rw [ends_bind, ends_liftExcept, required_of_not_truthy h]
    exact ⟨⟨_, rfl⟩, rfl⟩

/-! ## Before the loop -/

/-- The records, with what the loop over them reads and the date it starts from. -/
structure Fetched where
  ctx : LoopContext
  records : List Json
  queryDate : String

variable {services : IterationServices} {stanza : Stanza} {prior : Json} {α β : Type}

/-- A token is asked for, and used if there is one. -/
def ifToken (services : IterationServices) (request : TokenRequest) (prior : Json)
    (use : Json → Iterate α) : Iterate α := do
  let accessToken ← onWorld (acquireToken services.toServices request prior)
  if accessToken.truthy then use accessToken else throw tokenFailure

theorem withToken_eq {request : TokenRequest} (use : Json → Iterate Unit) :
    withToken services request prior tokenFailure use =
      ifToken services request prior fun accessToken ↦ do
        use accessToken
        return accessToken := rfl

theorem ifToken_bind {request : TokenRequest} (use : Json → Iterate α) (f : α → Iterate β) :
    ifToken services request prior use >>= f =
      ifToken services request prior fun accessToken ↦ use accessToken >>= f := by
  simp only [ifToken, bind_assoc]
  refine congrArg _ (funext fun accessToken ↦ ?_)
  split
  · rfl
  · rfl

/-- The updates since a date. -/
def getUpdates (c : Collector) (ctx : LoopContext) (queryDate : String) : Iterate Fetched := do
  let records ← getRecords ctx.services
    (c.requestSince ctx.services.currentVersion ctx.urls ctx.accessToken queryDate)
  return ⟨ctx, records, queryDate⟩

/-- What an iteration does before its loop. -/
def RecordCollector.fetch (services : IterationServices) (stanza : Stanza) (prior : Json) :
    RecordCollector → Iterate Fetched
  | updates .incidents => do
    let account ← liftExcept (getAccountDetails services.accountConf stanza.azureAppAccount)
    let queryDate ← onWorld (getStartDate services.toServices)
    let (environment, tenantId, urls) ←
      liftExcept (stanza.urlsOfEnvironment (orStr stanza.tenantId account.tenantId))
    ifToken services (tokenRequest account urls (some environment) false) prior
      fun accessToken ↦
        getUpdates .incidents ⟨services, stanza.toInputItem, tenantId, urls, accessToken⟩ queryDate
  | updates .alerts => byLocation .alerts false
  | updates .machines => byLocation .machines true
  | simulations => do
    let account ← liftExcept (getAccountDetails services.accountConf stanza.azureAppAccount)
    let queryDate ← onWorld (getStartDate services.toServices)
    let (_, tenantId, urls) ← liftExcept (stanza.urlsOfEnvironment account.tenantId)
    ifToken services (clientTokenRequest account urls) prior fun accessToken ↦ do
      let filterCriteria ← liftExcept (getSimulationsFilter urls.api queryDate services.today)
      let records ← getRecords services
        ⟨accessToken, urls.simulations ++ filterCriteria, userAgent services⟩
      return ⟨⟨services, stanza.toInputItem, tenantId, urls, accessToken⟩, records, queryDate⟩
where
  byLocation (c : Collector) (addDefault : Bool) : Iterate Fetched := do
    let account ← liftExcept (getAccountDetails services.accountConf stanza.azureAppAccount)
    let tenantId := orStr stanza.tenantId account.tenantId
    let urls ← liftExcept (stanza.urlsOfLocation tenantId)
    ifToken services (tokenRequest account urls none addDefault) prior fun accessToken ↦ do
      let queryDate ← onWorld (getStartDate services.toServices)
      getUpdates c ⟨services, stanza.toInputItem, tenantId.getD "", urls, accessToken⟩ queryDate

/-- What an iteration does with the records. -/
def RecordCollector.process (c : RecordCollector) (fetched : Fetched) : Iterate Json := do
  let maxDate ← c.loop fetched.ctx fetched.records fetched.queryDate
  onWorld (checkpointHandler fetched.ctx.services.toServices maxDate)
  return fetched.ctx.accessToken

theorem getUpdates_process (c : Collector) (ctx : LoopContext) (queryDate : String) :
    getUpdates c ctx queryDate >>= (RecordCollector.updates c).process =
      (do
        collectSince ctx.services c ctx.item ctx.tenantId ctx.urls ctx.accessToken queryDate
        return ctx.accessToken) := by
  simp only [getUpdates, collectSince, RecordCollector.process, RecordCollector.loop, onWorld_bind,
    bind_assoc, pure_bind]

/-- **An iteration gets the records, and is then the loop and the checkpoint.** -/
theorem stream_eq (c : RecordCollector) :
    c.toRest.stream services stanza prior =
      c.fetch services stanza prior >>= c.process := by
  cases c with
  | simulations =>
    simp only [RecordCollector.toRest, RestCollector.stream, streamSimulations,
      RecordCollector.fetch, withToken_eq, ifToken_bind, bind_assoc, pure_bind,
      RecordCollector.process, RecordCollector.loop]
  | updates c =>
    cases c with
    | incidents =>
      simp only [RecordCollector.toRest, RestCollector.stream, streamIncidents,
        RecordCollector.fetch, withToken_eq, ifToken_bind, bind_assoc, getUpdates_process]
    | alerts =>
      simp only [RecordCollector.toRest, RestCollector.stream, streamByLocation,
        RecordCollector.fetch, RecordCollector.fetch.byLocation, withToken_eq, ifToken_bind,
        bind_assoc, getUpdates_process]
    | machines =>
      simp only [RecordCollector.toRest, RestCollector.stream, streamByLocation,
        RecordCollector.fetch, RecordCollector.fetch.byLocation, withToken_eq, ifToken_bind,
        bind_assoc, getUpdates_process]

/-! ### The index before the loop -/

theorem Preserves.onWorld {x : Collect α} (hx : Preserves World.index x) :
    Preserves IterationState.index (onWorld x) := by
  unfold Requests.onWorld
  exact hx.zoom fun _ _ ↦ rfl

theorem preserves_index_getStartDate {services : Services} :
    Preserves World.index (getStartDate services) := fun _ ↦
  ends_getStartDate.mono fun r w' hr ↦ by
    cases r with
    | ok q => exact (StartsFrom.same hr).2.1
    | error e => exact congrArg World.index hr

theorem preserves_index_acquireToken {services : Services} {request : TokenRequest} :
    Preserves World.index (acquireToken services request prior) := fun _ ↦
  ends_acquireToken.mono fun _ _ h ↦ congrArg World.index h

theorem preserves_index_getRecords {request : OdataRequest} :
    Preserves IterationState.index (getRecords services request) := by
  have hpages : Preserves IterationState.index (onPages (services.getPages request)) := fun s ↦
    (preserves_onPages _ s).mono fun _ _ h ↦ congrArg World.index h
  refine hpages.bind fun _ ↦ Preserves.bind ?_ fun _ ↦ preserves_pure _
  exact Preserves.onWorld (preserves_modify fun _ ↦ rfl)

theorem preserves_index_ifToken {request : TokenRequest} {use : Json → Iterate α}
    (h : ∀ accessToken, Preserves IterationState.index (use accessToken)) :
    Preserves IterationState.index (ifToken services request prior use) := by
  refine (Preserves.onWorld preserves_index_acquireToken).bind fun accessToken ↦ ?_
  split
  · exact h accessToken
  · exact preserves_throw _

theorem preserves_index_byLocation {c : Collector} {addDefault : Bool} :
    Preserves IterationState.index
      (RecordCollector.fetch.byLocation services stanza prior c addDefault) :=
  (preserves_liftExcept _).bind fun _ ↦ (preserves_liftExcept _).bind fun _ ↦
    preserves_index_ifToken fun _ ↦ (Preserves.onWorld preserves_index_getStartDate).bind fun _ ↦
      preserves_index_getRecords.bind fun _ ↦ preserves_pure _

theorem preserves_index_fetch (c : RecordCollector) :
    Preserves IterationState.index (c.fetch services stanza prior) := by
  cases c with
  | simulations =>
    refine (preserves_liftExcept _).bind fun _ ↦ ?_
    refine (Preserves.onWorld preserves_index_getStartDate).bind fun _ ↦ ?_
    refine (preserves_liftExcept _).bind fun _ ↦ preserves_index_ifToken fun _ ↦ ?_
    exact (preserves_liftExcept _).bind fun _ ↦ preserves_index_getRecords.bind fun _ ↦
      preserves_pure _
  | updates c =>
    cases c with
    | incidents =>
      refine (preserves_liftExcept _).bind fun _ ↦ ?_
      refine (Preserves.onWorld preserves_index_getStartDate).bind fun _ ↦ ?_
      refine (preserves_liftExcept _).bind fun _ ↦ preserves_index_ifToken fun _ ↦ ?_
      exact preserves_index_getRecords.bind fun _ ↦ preserves_pure _
    | alerts => exact preserves_index_byLocation
    | machines => exact preserves_index_byLocation

/-! ## A rejected record -/

section BelongsTo

variable {fetched : Fetched} {s s' : IterationState}

theorem exists_of_ifToken {request : TokenRequest} {use : Json → Iterate α} {a : α}
    (h : ifToken services request prior use s = .ok a s') :
    ∃ accessToken s₀, use accessToken s₀ = .ok a s' := by
  rw [ifToken, bind_eq_ok_iff_exists] at h
  obtain ⟨accessToken, s₀, -, h⟩ := h
  split at h
  · exact ⟨accessToken, s₀, h⟩
  · cases h

theorem ctx_of_getUpdates {c : Collector} {ctx : LoopContext} {queryDate : String}
    (h : getUpdates c ctx queryDate s = .ok fetched s') : fetched.ctx = ctx := by
  rw [getUpdates, bind_eq_ok_iff_exists] at h
  obtain ⟨records, s₀, -, h⟩ := h
  cases h
  rfl

theorem belongsTo_of_byLocation {c : Collector} {addDefault : Bool}
    (h : RecordCollector.fetch.byLocation services stanza prior c addDefault s =
      .ok fetched s') : fetched.ctx.BelongsTo (.updates c) services stanza := by
  simp only [RecordCollector.fetch.byLocation, bind_eq_ok_iff_exists, liftExcept_eq_ok_iff] at h
  obtain ⟨account, _, ⟨haccount, rfl⟩, urls, _, ⟨hurls, rfl⟩, h⟩ := h
  obtain ⟨accessToken, s₀, h⟩ := exists_of_ifToken h
  obtain ⟨queryDate, s₁, -, h⟩ := bind_eq_ok_iff_exists.mp h
  obtain ⟨t, u, ht, -⟩ := InputItem.urlsOfLocation_eq_ok_iff.mp hurls
  obtain ⟨ht, -⟩ := nonemptyStr?_eq_some_iff.mp ht
  rw [ctx_of_getUpdates h]
  refine ⟨rfl, rfl, ?_, fun h ↦ nomatch h⟩
  rw [RecordCollector.tenant?, haccount, ht, Option.getD_some, ← ht]
  exact (orStr_eq_or _ _).symm

theorem belongsTo_of_fetch (h : c.fetch services stanza prior s = .ok fetched s') :
    fetched.ctx.BelongsTo c services stanza := by
  cases c with
  | simulations =>
    simp only [RecordCollector.fetch, bind_eq_ok_iff_exists, liftExcept_eq_ok_iff] at h
    obtain ⟨account, _, ⟨haccount, rfl⟩, queryDate, _, -, ⟨environment, tenantId, urls⟩, _,
      ⟨hurls, rfl⟩, h⟩ := h
    obtain ⟨accessToken, s₀, h⟩ := exists_of_ifToken h
    simp only [bind_eq_ok_iff_exists, liftExcept_eq_ok_iff] at h
    obtain ⟨filterCriteria, _, -, records, _, -, h⟩ := h
    cases h
    obtain ⟨henv, ht, u, hu, rfl⟩ := InputItem.urlsOfEnvironment_eq_ok_iff.mp hurls
    obtain ⟨ht, -⟩ := nonemptyStr?_eq_some_iff.mp ht
    obtain ⟨henv, -⟩ := nonemptyStr?_eq_some_iff.mp henv
    refine ⟨rfl, rfl, ?_, fun _ ↦ ⟨u, ?_, rfl⟩⟩
    · rw [RecordCollector.tenant?, haccount]
      exact ht
    · rw [henv]
      exact hu
  | updates c =>
    cases c with
    | incidents =>
      simp only [RecordCollector.fetch, bind_eq_ok_iff_exists, liftExcept_eq_ok_iff] at h
      obtain ⟨account, _, ⟨haccount, rfl⟩, queryDate, _, -, ⟨environment, tenantId, urls⟩, _,
        ⟨hurls, rfl⟩, h⟩ := h
      obtain ⟨accessToken, s₀, h⟩ := exists_of_ifToken h
      obtain ⟨-, ht, -⟩ := InputItem.urlsOfEnvironment_eq_ok_iff.mp hurls
      obtain ⟨ht, -⟩ := nonemptyStr?_eq_some_iff.mp ht
      rw [ctx_of_getUpdates h]
      refine ⟨rfl, rfl, ?_, fun h ↦ nomatch h⟩
      rw [RecordCollector.tenant?, haccount, ← ht]
      exact (orStr_eq_or _ _).symm
    | alerts => exact belongsTo_of_byLocation h
    | machines => exact belongsTo_of_byLocation h

end BelongsTo

theorem SimulationsBecome.length_eq {services : IterationServices} {item : InputItem}
    {tenantId template : String} {asked pages : List Odata.PageRequest} {records : List Json}
    {events : List Event}
    (h : SimulationsBecome services item tenantId template asked records events pages) :
    events.length = records.length := by
  induction h with
  | nil => rfl
  | cons _ _ _ _ _ ih => rw [List.length_cons, List.length_cons, ih]

/-- The records before the one the loop raises at are ingested; what is known of the index where
it raises tells if anything else is. -/
theorem ends_stream_of_loop {before after : List Json} {record : Json} {date maxDate : String}
    {s s₀ s₁ : IterationState}
    (hfetch : c.fetch services stanza prior s = .ok ⟨ctx, before ++ record :: after, date⟩ s₀)
    (hbefore : c.loop ctx before date s₀ = .ok maxDate s₁) {Q : Except PyError Json →
      IterationState → Prop} : Ends (c.toRest.stream services stanza prior) s Q ↔
        Ends (c.loop ctx (record :: after) maxDate >>= fun maxDate ↦ do
          onWorld (checkpointHandler ctx.services.toServices maxDate)
          return ctx.accessToken) s₁ Q := by
  rw [stream_eq, ends_bind_of_ok hfetch, RecordCollector.process, RecordCollector.loop_append,
    bind_assoc, ends_bind_of_ok hbefore]

section Rejected

variable {before after : List Json} {record : Json} {date maxDate : String}
  {s s₀ s₁ : IterationState}

/-- A simulation that lacks the completion time is in the index, next to those before it. -/
theorem not_ingestedExactly_of_lacks
    (hfetch : c.fetch services stanza prior s = .ok ⟨ctx, before ++ record :: after, date⟩ s₀)
    (hbefore : c.loop ctx before date s₀ = .ok maxDate s₁)
    (hlacks : Lacks ctx s₁ c record .completionDateTime) :
    ¬Ends (c.toRest.stream services stanza prior) s fun r s' ↦
      (∃ e, r = .error e) ∧ IngestedExactly ctx c services stanza before s s' := by
  intro hends
  rw [ends_stream_of_loop hfetch hbefore, ends_bind] at hends
  obtain ⟨rfl, event, hwritten⟩ := ends_loop_of_lacks_completionDateTime hlacks after maxDate
  obtain ⟨_, s', ⟨⟨e, rfl⟩, hindex⟩, hends⟩ := (hwritten.and hends).exists
  obtain ⟨-, -, asked, events, hbecome, hindex'⟩ :
    _ ∧ IngestedExactly ctx .simulations services stanza before s s' := hends
  obtain ⟨events₁, hbecome₁, hindex₁⟩ := become_of_loop hbefore
  have hstart : s₀.world.index = s.world.index := (preserves_index_fetch _).of_ok hfetch
  -- the two lists of events are as long as the list of records, and the index has one more
  have hlength := congrArg List.length (hindex.symm.trans hindex')
  rw [hindex₁, hstart] at hlength
  simp only [List.length_append, SimulationsBecome.length_eq hbecome,
    SimulationsBecome.length_eq hbecome₁, List.length_singleton] at hlength
  omega

/-- A record that lacks another field is not, and nothing after it. -/
theorem ends_stream_of_lacks {missing : Missing}
    (hfetch : c.fetch services stanza prior s = .ok ⟨ctx, before ++ record :: after, date⟩ s₀)
    (hbefore : c.loop ctx before date s₀ = .ok maxDate s₁)
    (hlacks : Lacks ctx s₁ c record missing) (hne : missing ≠ .completionDateTime) :
    Ends (c.toRest.stream services stanza prior) s fun r s' ↦
      (∃ e, r = .error e) ∧ IngestedExactly ctx c services stanza before s s' := by
  have hstart : s₀.world.index = s.world.index := (preserves_index_fetch c).of_ok hfetch
  obtain ⟨events, hbecome, hindex₁⟩ := become_of_loop hbefore
  rw [ends_stream_of_loop hfetch hbefore, ends_bind]
  refine (ends_loop_of_lacks hlacks hne after maxDate).mono ?_
  rintro _ s' ⟨⟨e, rfl⟩, hindex, hpages⟩
  refine ⟨⟨e, rfl⟩, belongsTo_of_fetch hfetch, s₀.pages, events, hpages ▸ hbecome, ?_⟩
  rw [hindex, hindex₁, hstart]

/-- **A rejected record is not ingested unless it is its completion time that is missing.** -/
theorem rejected_iff {missing : Missing}
    (hfetch : c.fetch services stanza prior s = .ok ⟨ctx, before ++ record :: after, date⟩ s₀)
    (hbefore : c.loop ctx before date s₀ = .ok maxDate s₁)
    (hlacks : Lacks ctx s₁ c record missing) :
    Ends (c.toRest.stream services stanza prior) s (fun r s' ↦
      (∃ e, r = .error e) ∧ IngestedExactly ctx c services stanza before s s') ↔
        missing ≠ .completionDateTime := by
  constructor
  · rintro hends rfl
    exact not_ingestedExactly_of_lacks hfetch hbefore hlacks hends
  · exact ends_stream_of_lacks hfetch hbefore hlacks

end Rejected

/-! ## Two simulations -/

def overviewUrl : String :=
  "https://graph.microsoft.com/v1.0/security/attackSimulation/simulations/s1/report/overview"

/-- A server with these simulations, of which the first has a report and no other is asked for. -/
def simulationsServer (simulations : List Json) : Odata.Server := fun url ↦
  if url = overviewUrl then .success (.ok (.obj [("simulationUsersCount", .str "5")]))
  else .success (.ok (.obj [("value", .arr simulations)]))

def simulationsStanza : Stanza where
  azureAppAccount := "acc"
  tenantId := none
  environment := some "commercial-graph-api"
  location := none
  index := "main"
  sourcetype := "ms:defender:simulations"
  query := none

def simulationsContext (simulations : List Json) : LoopContext where
  services := servedBy (simulationsServer simulations)
  item := simulationsStanza.toInputItem
  tenantId := "t1"
  urls := injectTenantId commercialGraphApi "t1"
  accessToken := .str "token"

/-- Nothing has been collected yet. -/
def beforeSimulations : IterationState := .initial ⟨none, some "2024-01-01T00:00:00Z", [], []⟩

def completedSimulation : Json :=
  .obj [("id", .str "s1"), ("completionDateTime", .str "2024-01-02T00:00:00Z")]

/-- The API has no completion time for a simulation that is running. -/
def runningSimulation : Json := .obj [("id", .str "s1"), ("completionDateTime", .null)]

theorem fetch_simulations (simulations : List Json) : ∃ s₀,
    RecordCollector.simulations.fetch (servedBy (simulationsServer simulations)) simulationsStanza
      .null beforeSimulations =
        .ok ⟨simulationsContext simulations, simulations, "2024-01-01T00:00:00Z"⟩ s₀ :=
  ⟨_, rfl⟩

private theorem formatOne_simulationReport :
    formatOne (injectTenantId commercialGraphApi "t1").simulationReport "s1" = overviewUrl := by
  decide +kernel

theorem get_overview (simulations : List Json) (s : IterationState) :
    (simulationsContext simulations).services.get s.pages
        ⟨(simulationsContext simulations).reportUrl (.str "s1"), .str "token",
          some (userAgent (simulationsContext simulations).services), none⟩ =
      .success (.ok (.obj [("simulationUsersCount", .str "5")])) := by
  have hurl : (simulationsContext simulations).reportUrl (.str "s1") = overviewUrl :=
    formatOne_simulationReport
  rw [hurl]
  rfl

/-- The simulation before the one without an id is ingested. -/
theorem rejected_unnamedSimulation :
    Ends (RestCollector.simulations.stream
        (servedBy (simulationsServer [completedSimulation, .obj []])) simulationsStanza .null)
      beforeSimulations fun r s' ↦ (∃ e, r = .error e) ∧
        IngestedExactly (simulationsContext [completedSimulation, .obj []]) .simulations
          (servedBy (simulationsServer [completedSimulation, .obj []])) simulationsStanza
          [completedSimulation] beforeSimulations s' := by
  obtain ⟨s₀, hfetch⟩ : ∃ s₀, RecordCollector.simulations.fetch
      (servedBy (simulationsServer [completedSimulation, .obj []])) simulationsStanza .null
      beforeSimulations = .ok ⟨simulationsContext [completedSimulation, .obj []],
        [completedSimulation] ++ .obj [] :: [], "2024-01-01T00:00:00Z"⟩ s₀ :=
    fetch_simulations [completedSimulation, .obj []]
  obtain ⟨s₁, hbefore⟩ : ∃ s₁,
      RecordCollector.simulations.loop (simulationsContext [completedSimulation, .obj []])
        [completedSimulation] "2024-01-01T00:00:00Z" s₀ = .ok "2024-01-02T00:00:00Z" s₁ :=
    ⟨_, rfl⟩
  exact (rejected_iff hfetch hbefore (.id rfl)).mpr (by decide)

/-- A running simulation is. -/
theorem not_rejected : ¬∀ (c : RecordCollector) (services : IterationServices) (stanza : Stanza)
    (prior : Json) (ctx : LoopContext) (before after : List Json) (record : Json)
    (date maxDate : String) (s s₀ s₁ : IterationState) (missing : Missing),
    c.fetch services stanza prior s = .ok ⟨ctx, before ++ record :: after, date⟩ s₀ →
    c.loop ctx before date s₀ = .ok maxDate s₁ → Lacks ctx s₁ c record missing →
    Ends (c.toRest.stream services stanza prior) s
      fun r s' ↦ (∃ e, r = .error e) ∧ IngestedExactly ctx c services stanza before s s' := by
  intro h
  obtain ⟨s₀, hfetch⟩ : ∃ s₀, RecordCollector.simulations.fetch
      (servedBy (simulationsServer [runningSimulation])) simulationsStanza .null
      beforeSimulations = .ok ⟨simulationsContext [runningSimulation],
        [] ++ runningSimulation :: [], "2024-01-01T00:00:00Z"⟩ s₀ :=
    fetch_simulations [runningSimulation]
  have hlacks : Lacks (simulationsContext [runningSimulation]) s₀ .simulations runningSimulation
      .completionDateTime :=
    .completionDateTime rfl rfl (get_overview [runningSimulation] s₀) rfl rfl rfl
  have hbefore : RecordCollector.simulations.loop (simulationsContext [runningSimulation]) []
      "2024-01-01T00:00:00Z" s₀ = .ok "2024-01-01T00:00:00Z" s₀ := rfl
  have hends := h .simulations (servedBy (simulationsServer [runningSimulation])) simulationsStanza
    .null _ [] [] runningSimulation _ _ beforeSimulations s₀ s₀ _ hfetch hbefore hlacks
  have hnot := not_ingestedExactly_of_lacks hfetch hbefore hlacks
  exact hnot hends

end Requests

end MsSecurity
