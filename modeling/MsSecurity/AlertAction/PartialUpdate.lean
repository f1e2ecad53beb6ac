import MsSecurity.AlertAction.ExitCode
import MsSecurity.AlertAction.IncidentSplit

/-!
# Updates before a failure

The update action adds every answer to the event buffer and calls `writeevents` after the last
event. An event whose tenant is missing, whose token is refused or whose update fails ends the loop
before that, and with it go the answers of the updates that were made. So they are in the spool
exactly if there were none (`recorded_iff`).
-/

namespace MsSecurity

/-- The spool holds what the answer of the call becomes: the incident, and each of its alerts. -/
def InSpool (spool : Spool) (call : ApiRequest × Json) : Prop :=
  ∃ incident payloads, call.2 = .obj incident ∧ answerPayloads incident = .ok payloads ∧
    ∀ payload ∈ payloads, ∃ entry ∈ spool.spooled, entry.2.raw = payload

theorem not_inSpool {spool : Spool} (h : spool.spooled = []) (call : ApiRequest × Json) :
    ¬InSpool spool call := by
  rintro ⟨incident, payloads, -, hpayloads, hall⟩
  obtain ⟨payload, hpayload⟩ := List.exists_mem_of_ne_nil _ (ne_nil_of_answerPayloads hpayloads)
  obtain ⟨entry, hentry, -⟩ := hall payload hpayload
  rw [h] at hentry
  exact absurd hentry List.not_mem_nil

namespace UpdateIncidentHelper

variable (helper : UpdateIncidentHelper) (services : ActionServices)

/-- The event at position `k` fails, in the state that the events before it leave. -/
def FailsAt (rows : List Row) (k : ℕ) (s u : ActionState) (e : PyError) (t : ActionState) : Prop :=
  ∃ vars reports row, rows[k]? = some row ∧
    helper.updateEach services initialVars 0 (rows.take k) s = .ok (vars, reports) u ∧
    helper.updateEvent services vars k row u = .error e t

variable {helper services} {vars : UpdateVars} {num : ℕ} {rows : List Row} {s t : ActionState}
  {e : PyError}

theorem updateEach_eq_error_iff : helper.updateEach services vars num rows s = .error e t ↔
    ∃ k vars' reports u row, rows[k]? = some row ∧
      helper.updateEach services vars num (rows.take k) s = .ok (vars', reports) u ∧
      helper.updateEvent services vars' (num + k) row u = .error e t := by
  induction rows generalizing vars num s with
  | nil =>
    refine iff_of_false (fun h ↦ nomatch h) ?_
    rintro ⟨k, _, _, _, _, h, -⟩
    cases h
  | cons row rows ih =>
    rw [updateEach, bind_eq_error_iff_exists]
    constructor
    · rintro (hrow | ⟨⟨vars₁, report⟩, s₁, hrow, hrest⟩)
      · exact ⟨0, vars, [], s, row, rfl, rfl, hrow⟩
      · rcases bind_eq_error_iff_exists.mp hrest with heach | ⟨_, _, _, hreturn⟩
        · obtain ⟨k, vars', reports, u, failing, hget, htake, hfails⟩ := ih.mp heach
          refine ⟨k + 1, vars', report ++ reports, u, failing, hget, ?_, ?_⟩
          · rw [List.take_succ_cons, updateEach, bind_eq_ok_iff_exists]
            refine ⟨_, s₁, hrow, ?_⟩
            rw [bind_eq_ok_iff_exists]
            exact ⟨_, u, htake, rfl⟩
          · rwa [← Nat.add_assoc, Nat.add_right_comm]
        · cases hreturn
    · rintro ⟨k, vars', reports, u, failing, hget, htake, hfails⟩
      cases k with
      | zero =>
        obtain rfl := Option.some.inj hget
        obtain ⟨hpair, rfl⟩ := EStateM.Result.ok.inj htake
        obtain ⟨rfl, -⟩ := Prod.mk.inj hpair
        exact Or.inl hfails
      | succ k =>
        rw [List.take_succ_cons] at htake
        obtain ⟨⟨vars₁, report⟩, s₁, hrow, hrest⟩ := bind_eq_ok_iff_exists.mp htake
        obtain ⟨⟨vars₂, reports₂⟩, s₂, heach, hreturn⟩ := bind_eq_ok_iff_exists.mp hrest
        obtain ⟨hpair, rfl⟩ := EStateM.Result.ok.inj hreturn
        obtain ⟨rfl, -⟩ := Prod.mk.inj hpair
        refine Or.inr ⟨_, s₁, hrow, bind_eq_error_iff_exists.mpr (Or.inl ?_)⟩
        refine ih.mpr ⟨k, vars₂, reports₂, s₂, failing, hget, heach, ?_⟩
        rwa [← Nat.add_assoc, Nat.add_right_comm] at hfails

theorem processEvents_eq_error_iff : helper.processEvents services rows s = .error e t ↔
    ∃ k u, helper.FailsAt services rows k s u e t := by
  have hwrites (r : UpdateVars × List UpdateReport) (u : ActionState) :
      ¬(if r.2.length ≠ 0 then do
          let _ ← writeevents services r.1.index (orStr r.1.host services.hostname)
            (some (incidentSource (pyStr r.1.tenantId))) fext
          return 0
        else return 0 : Action ℤ) u = .error e t := by
    intro h
    split_ifs at h
    · rcases bind_eq_error_iff_exists.mp h with hwrite | ⟨_, _, _, hreturn⟩
      · obtain ⟨⟨written, hok⟩, -⟩ := ends_writeevents.of_error hwrite
        exact absurd hok error_ne_ok
      · cases hreturn
    · cases h
  rw [processEvents, bind_eq_error_iff_exists]
  constructor
  · rintro (heach | ⟨_, _, _, h⟩)
    · obtain ⟨k, vars, reports, u, row, hget, htake, hfails⟩ := updateEach_eq_error_iff.mp heach
      rw [Nat.zero_add] at hfails
      exact ⟨k, u, vars, reports, row, hget, htake, hfails⟩
    · exact absurd h (hwrites _ _)
  · rintro ⟨k, u, vars, reports, row, hget, htake, hfails⟩
    refine Or.inl (updateEach_eq_error_iff.mpr ⟨k, vars, reports, u, row, hget, htake, ?_⟩)
    rwa [Nat.zero_add]

/-! ## The spool during the loop -/

theorem Keeps.preserves_spool {α : Type} {x : Action α} (hx : Keeps x) :
    Preserves ActionState.spool x := fun s ↦ (hx s).mono fun _ _ h ↦ h.spool

theorem preserves_spool_addevents {settings : ActionSettings} (sourcetype : String)
    (raws : List Json) : Preserves ActionState.spool (addevents settings sourcetype raws) :=
  fun _ ↦ ends_addevents.mono fun _ _ ⟨_, _, _, hgains⟩ ↦ hgains.spool

theorem preserves_spool_updateIncident (accessToken : Json) (incidentUrl : String) :
    Preserves ActionState.spool (helper.updateIncident services accessToken incidentUrl) := by
  refine (Keeps.preserves_spool (keeps_callApi _ _ _ _)).bind fun response ↦
    (preserves_liftExcept _).bind fun updated ↦ ?_
  split
  · exact (preserves_liftExcept _).bind fun _ ↦ (preserves_spool_addevents _ _).bind fun _ ↦
      (preserves_spool_addevents _ _).bind fun _ ↦ preserves_pure _
  · exact preserves_spool_addevents _ _

theorem preserves_spool_updateEvent (row : Row) :
    Preserves ActionState.spool (helper.updateEvent services vars num row) := by
  refine (Keeps.preserves_spool (keeps_preHandle _ _)).bind fun event ↦
    (preserves_liftExcept _).bind fun tenantId ↦ (preserves_liftExcept _).bind fun urls ↦
      (Keeps.preserves_spool (keeps_cachedAccessToken _ _)).bind fun accessToken ↦ ?_
  split
  · refine Preserves.bind ?_ fun _ ↦ preserves_pure _
    exact (preserves_spool_updateIncident _ _).exceptWith fun _ ↦ preserves_throw _
  · exact preserves_pure _

theorem preserves_spool_updateEach :
    Preserves ActionState.spool (helper.updateEach services vars num rows) := by
  induction rows generalizing vars num with
  | nil => exact preserves_pure _
  | cons row rows ih =>
    exact (preserves_spool_updateEvent row).bind fun _ ↦ ih.bind fun _ ↦ preserves_pure _

end UpdateIncidentHelper

/-- **What was updated before a failure is in the spool exactly if nothing was.** When
`process_events` fails at an event, the answer of every update that was made before is in the spool
if and only if no event before it asked for an update. -/
theorem recorded_iff {helper : UpdateIncidentHelper} {services : ActionServices} {rows : List Row}
    {k : ℕ} {s u t : ActionState} {e : PyError} (hs : s.Fresh) (hcalls : s.calls = [])
    (hfails : helper.FailsAt services rows k s u e t) :
    (∀ call ∈ u.calls, InSpool t.spool call) ↔ ∀ row ∈ rows.take k, ¬helper.Asks row := by
  obtain ⟨vars, reports, row, -, heach, hevent⟩ := hfails
  have hspool : t.spool.spooled = [] := by
    have hevent := (UpdateIncidentHelper.preserves_spool_updateEvent row u).of_error hevent
    have heach := UpdateIncidentHelper.preserves_spool_updateEach.of_ok heach
    rw [hevent, heach, Spool.spooled, hs.files, List.flatMap_nil]
  obtain ⟨calls, hmade, hupdates, -⟩ :=
    (UpdateIncidentHelper.updated_of_updateEach heach).1.calls
  rw [hcalls, List.nil_append] at hmade
  -- one call was made for each event that asked
  have hlength := hupdates.length_eq
  calc (∀ call ∈ u.calls, InSpool t.spool call) ↔ u.calls = [] := by
        rw [List.eq_nil_iff_forall_not_mem]
        exact forall₂_congr fun call _ ↦ iff_false_intro (not_inSpool hspool call)
    _ ↔ (rows.take k).filter helper.Asks = [] := by
        rw [hmade, ← List.length_eq_zero_iff, ← hlength, List.length_eq_zero_iff]
    _ ↔ ∀ row ∈ rows.take k, ¬helper.Asks row := by simp [List.filter_eq_nil_iff]

/-! ## A missing tenant -/

theorem recorded_iff_noIncident : ∃ u e t, someUpdate.FailsAt answered
    [incidentRow "" "t1" "a", incidentRow "2" "" "a"] 1 newAction u e t ∧
      ∀ call ∈ u.calls, InSpool t.spool call := by
  obtain ⟨u, e, t, hfails⟩ : ∃ u e t, someUpdate.FailsAt answered
      [incidentRow "" "t1" "a", incidentRow "2" "" "a"] 1 newAction u e t :=
    ⟨_, _, _, _, _, _, rfl, rfl, rfl⟩
  refine ⟨u, e, t, hfails, (recorded_iff ⟨rfl, rfl⟩ rfl hfails).mpr fun row hrow ↦ ?_⟩
  obtain rfl := List.mem_singleton.mp hrow
  decide

/-- The first incident is updated, and the second event has no tenant. -/
theorem not_recorded : ∃ u e t, someUpdate.FailsAt answered
    [incidentRow "1" "t1" "a", incidentRow "2" "" "a"] 1 newAction u e t ∧
      ∃ call ∈ u.calls, call.1.method = "PATCH" ∧ ¬InSpool t.spool call := by
  obtain ⟨u, e, t, call, hfails, hcall, hmethod, hfiles⟩ : ∃ u e t call, someUpdate.FailsAt answered
      [incidentRow "1" "t1" "a", incidentRow "2" "" "a"] 1 newAction u e t ∧ u.calls = [call] ∧
      call.1.method = "PATCH" ∧ t.spool.files = [] :=
    ⟨_, _, _, _, ⟨_, _, _, rfl, rfl, rfl⟩, rfl, rfl, rfl⟩
  refine ⟨u, e, t, hfails, call, ?_, hmethod, ?_⟩
  · rw [hcall]
    exact List.mem_singleton_self call
  · exact not_inSpool (by rw [Spool.spooled, hfiles, List.flatMap_nil]) call

end MsSecurity
