import MsSecurity.AlertAction.Script
import Mathlib.Algebra.GroupWithZero.Nat

/-!
# What exit code 0 of an alert action promises

Code 0 means that the action went through all its events, and that every API call it had to make
succeeded. What the action added to the event buffer is another matter: `writeevents` reports a
spool file that cannot be written by returning `False`, and neither helper looks at what it returns.
So code 0 means that every record was written exactly if, one of the times that the buffer was
written and held them all, every file could be (`honest_iff`).
-/

namespace MsSecurity

/-! ## What code 0 should mean -/

/-- Every one of the records, told from the others by its position, is in a file that was written.
-/
def Spool.Wrote (spool : Spool) (records : List Json) : Prop :=
  ∀ i record, records[i]? = some record → ∃ file ∈ spool.written, ∃ entry ∈ file.events,
    entry.number = i ∧ entry.raw = record

/-- How many files a buffer of `n` entries takes. -/
def filesFor (n : ℕ) : ℕ := (n + defaultChunk - 1) / defaultChunk

/-- How many of `n` files are tried, the first of them after `a` attempts: those up to the first
that cannot be written. -/
def tried (answers : ℕ → SpoolAnswer) : ℕ → ℕ → ℕ
  | 0, _ => 0
  | n + 1, a => if (answers a).ok then tried answers n (a + 1) + 1 else 1

/-- A buffer of `size` entries gains as many as the list says, one count after the other, and is
written after each, the first time after `a` attempts. One of these times it holds all the `total`
entries, and every file can be written. -/
def WritesAll (answers : ℕ → SpoolAnswer) (total : ℕ) : ℕ → ℕ → List ℕ → Prop
  | _, _, [] => False
  | size, a, count :: counts =>
    (size + count = total ∧ ∀ i < filesFor total, (answers (a + i)).ok) ∨
      WritesAll answers total (size + count) (a + tried answers (filesFor (size + count)) a) counts

/-- How many records there are in the answer to each call. -/
def recordCounts (records : Json → List Json) (calls : List (ApiRequest × Json)) : List ℕ :=
  calls.map fun call ↦ (records call.2).length

namespace AdvancedHuntingHelper

variable (helper : AdvancedHuntingHelper)

/-- The call is a query for the event. What the event does not say is as it was before. -/
def Hunts (row : Row) (call : ApiRequest × Json) : Prop :=
  ∃ tenantId urls query,
    getUrlsByEnvironment (some helper.environment) (some tenantId) = .ok urls ∧
      call.1.method = "POST" ∧ call.1.url = urls.advancedHunting ∧
      call.1.body = .obj [("Query", .str query)] ∧
      (∀ v, nonemptyStr? (row.get "tenant_id") = some v → tenantId = v) ∧
      ∀ v, nonemptyStr? (row.get "query") = some v → query = v

end AdvancedHuntingHelper

/-- An exit code of 0 means that all that was to be done was done. -/
def ActionScript.Means {H : Type} (script : ActionScript H) (host : ActionHost)
    (Done : H → List Row → ActionState → ActionState → Prop) : Prop :=
  script.exitCode host = 0 →
    ∃ helper rows s t, script.Finishes host helper rows s t ∧ Done helper rows s t

inductive DefenderAction
  | defenderAdvancedHunting
  | defenderUpdateIncident
  | defenderUpdateIncidentGraph
  deriving DecidableEq

/-- The exit code of the action's process is 0 only if every event, or for updates every event with
an incident, had its API call succeed, and every record in the answers was written to the spool. -/
def DefenderAction.Honest (host : ActionHost) : DefenderAction → Prop
  | .defenderAdvancedHunting => (MsSecurity.defenderAdvancedHunting host).Means host
      fun helper rows _ t ↦ List.Forall₂ helper.Hunts rows t.calls ∧
        t.spool.Wrote (t.calls.flatMap fun call ↦ helper.returned call.2)
  | .defenderUpdateIncident => (MsSecurity.defenderUpdateIncident host).Means host updated
  | .defenderUpdateIncidentGraph =>
    (MsSecurity.defenderUpdateIncidentGraph host).Means host updated
where
  updated (helper : UpdateIncidentHelper) (rows : List Row) (_ t : ActionState) : Prop :=
    List.Forall₂ helper.Updates (rows.filter helper.Asks) t.calls ∧
      t.spool.Wrote (t.calls.flatMap fun call ↦ recorded call.2)

/-- If the process goes through all its events, and the answers hold records, then every file can be
written, of the only time or of one of the times that a buffer with all of them is written. -/
def DefenderAction.Spools (host : ActionHost) : DefenderAction → Prop
  | .defenderAdvancedHunting => ∀ helper rows s t,
      (MsSecurity.defenderAdvancedHunting host).Finishes host helper rows s t →
        (recordCounts helper.returned t.calls).sum = 0 ∨
          WritesAll host.services.spool (recordCounts helper.returned t.calls).sum 0 0
            (recordCounts helper.returned t.calls)
  | .defenderUpdateIncident => updates (MsSecurity.defenderUpdateIncident host)
  | .defenderUpdateIncidentGraph => updates (MsSecurity.defenderUpdateIncidentGraph host)
where
  updates (script : ActionScript UpdateIncidentHelper) : Prop :=
    ∀ helper rows s t, script.Finishes host helper rows s t →
      ∀ i < filesFor (recordCounts recorded t.calls).sum, (host.services.spool i).ok

/-! ## Which entries were written -/

/-- The entries in the files that were written, one file after the other. -/
def Spool.logged (spool : Spool) : List ActionEvent := spool.written.flatMap SpoolFile.events

/-- The entries that were written are the first `n` of the buffer. -/
structure ActionState.LoggedTo (s : ActionState) (n : ℕ) : Prop where
  le : n ≤ s.events.length
  mem_iff : ∀ entry, entry ∈ s.spool.logged ↔ entry ∈ s.events.take n

section Files

variable {answers : ℕ → SpoolAnswer} {fext : String} {header : Header} {n : ℕ}
  {s t : ActionState}

theorem Spool.logged_write (spool : Spool) (file : SpoolFile) :
    (spool.write file).logged = spool.logged ++ file.events := by
  rw [logged, write, List.flatMap_append, List.flatMap_singleton, ← logged]

/-- The chunks are written up to the first file that cannot be. -/
theorem exists_logged_writeChunks (answers : ℕ → SpoolAnswer) (fext : String) (header : Header)
    (spool : Spool) {chunks : List (List ActionEvent)} (hne : ∀ chunk ∈ chunks, chunk ≠ []) :
    ∃ entries, entries <+: chunks.flatten ∧
      (writeChunks answers fext header chunks spool).2.logged = spool.logged ++ entries ∧
      (writeChunks answers fext header chunks spool).2.attempts =
        spool.attempts + tried answers chunks.length spool.attempts ∧
      (entries = chunks.flatten ↔ ∀ i < chunks.length, (answers (spool.attempts + i)).ok) := by
  induction chunks generalizing spool with
  | nil =>
    exact ⟨[], List.prefix_rfl, (List.append_nil _).symm, rfl,
      iff_of_true rfl fun i hi ↦ absurd hi (Nat.not_lt_zero i)⟩
  | cons chunk chunks ih =>
    have hchunk := hne chunk List.mem_cons_self
    rw [writeChunks, List.length_cons, tried, List.flatten_cons]
    split_ifs with hok
    · obtain ⟨entries, hentries, hlogged, hattempts, hall⟩ :=
        ih (spool.write ⟨spoolName answers fext spool.attempts, header, chunk⟩)
          fun c hc ↦ hne c (List.mem_cons_of_mem _ hc)
      rw [Spool.attempts_write] at hattempts hall
      refine ⟨chunk ++ entries, (List.prefix_append_right_inj chunk).mpr hentries, ?_, ?_, ?_⟩
      · rw [hlogged, Spool.logged_write, List.append_assoc]
      · rw [hattempts]
        omega
      · rw [List.append_cancel_left_eq, hall]
        constructor
        · rintro h (- | i) hi
          · exact hok
          · rw [show spool.attempts + (i + 1) = spool.attempts + 1 + i by omega]
            exact h i (Nat.lt_of_succ_lt_succ hi)
        · intro h i hi
          rw [show spool.attempts + 1 + i = spool.attempts + (i + 1) by omega]
          exact h (i + 1) (Nat.succ_lt_succ hi)
    · refine ⟨[], List.nil_prefix, (List.append_nil _).symm, rfl, iff_of_false ?_ fun h ↦ ?_⟩
      · exact fun h ↦ hchunk (List.append_eq_nil_iff.mp h.symm).1
      · exact hok (h 0 (Nat.succ_pos _))

theorem length_chunksOf (events : List ActionEvent) :
    (chunksOf defaultChunk events).length = filesFor events.length := by
  rw [chunksOf, List.length_map, List.length_range, filesFor]

theorem mem_take_or_mem_take {α : Type} {entries : List α} {entry : α} {m n : ℕ} :
    entry ∈ entries.take m ∨ entry ∈ entries.take n ↔ entry ∈ entries.take (max m n) := by
  rcases le_total m n with h | h
  · rw [max_eq_right h, or_iff_right_of_imp]
    exact fun hmem ↦ (List.take_prefix_take_left h).subset hmem
  · rw [max_eq_left h, or_iff_left_of_imp]
    exact fun hmem ↦ (List.take_prefix_take_left h).subset hmem

/-- Writing the buffer reaches its end exactly if every file can be written. -/
theorem ActionState.LoggedTo.of_written {entries : List ActionEvent} (h : s.LoggedTo n)
    (hevents : t.events = s.events ++ entries) (hspool : t.spool =
      (writeChunks answers fext header (chunksOf defaultChunk t.events) s.spool).2) :
    ∃ n', t.LoggedTo n' ∧ t.spool.attempts =
        s.spool.attempts + tried answers (filesFor t.events.length) s.spool.attempts ∧
      (n' = t.events.length ↔ n = t.events.length ∨
        ∀ i < filesFor t.events.length, (answers (s.spool.attempts + i)).ok) := by
  obtain ⟨written, hwritten, hlogged, hattempts, hall⟩ :=
    exists_logged_writeChunks answers fext header s.spool fun chunk hchunk ↦
      ne_nil_of_mem_chunksOf (by decide : 0 < defaultChunk) hchunk
  rw [← hspool] at hlogged hattempts
  rw [length_chunksOf] at hattempts hall
  rw [flatten_chunksOf (by decide)] at hwritten hall
  have hle : n ≤ t.events.length := by
    rw [hevents, List.length_append]
    exact h.le.trans (Nat.le_add_right _ _)
  -- what was written before, and what is written now, are both first parts of the buffer
  have hbefore : s.events.take n = t.events.take n := by
    rw [hevents, List.take_append_of_le_length h.le]
  have hnow : written = t.events.take written.length := (List.prefix_iff_eq_take.mp hwritten)
  have hlength : written = t.events ↔ written.length = t.events.length :=
    ⟨congrArg List.length, fun hlength ↦ hwritten.eq_of_length hlength⟩
  refine ⟨max n written.length, ⟨max_le hle hwritten.length_le, fun entry ↦ ?_⟩, hattempts, ?_⟩
  · rw [hlogged, List.mem_append, h.mem_iff, hbefore, ← mem_take_or_mem_take, ← hnow]
  · rw [← hall, hlength]
    have := hwritten.length_le
    omega

/-- Entries that are numbered are all written exactly if the last one is. -/
theorem ActionState.LoggedTo.wrote_iff {records : List Json} (h : t.LoggedTo n)
    (hnumbers : NumberedFrom 0 t.events) (hraws : t.events.map ActionEvent.raw = records) :
    t.spool.Wrote records ↔ n = t.events.length := by
  subst hraws
  have hnumber {i : ℕ} {entry : ActionEvent} (hentry : t.events[i]? = some entry) :
      entry.number = i := by
    obtain ⟨hi, -⟩ := List.getElem?_eq_some_iff.mp hentry
    have hget : (t.events.map ActionEvent.number)[i]? = (List.range' 0 t.events.length)[i]? := by
      rw [hnumbers]
    rw [List.getElem?_map, hentry, Option.map_some, List.getElem?_range' hi, Nat.zero_add,
      Nat.one_mul] at hget
    exact Option.some.inj hget
  constructor
  · intro hwrote
    by_contra hne
    have hlast : t.events.length - 1 < t.events.length := by have := h.le; omega
    have hget := List.getElem?_eq_getElem hlast
    obtain ⟨file, hfile, entry, hentry, hi, -⟩ := hwrote (t.events.length - 1) _
      (by rw [List.getElem?_map, hget, Option.map_some])
    -- the last entry is among the first `n`, where there are only smaller numbers
    have hmem := (h.mem_iff entry).mp (List.mem_flatMap.mpr ⟨file, hfile, hentry⟩)
    obtain ⟨k, hk, hentry⟩ := List.mem_iff_getElem.mp hmem
    rw [List.length_take] at hk
    rw [List.getElem_take] at hentry
    have := hnumber (hentry ▸ List.getElem?_eq_getElem (by omega))
    have := h.le
    omega
  · rintro rfl i record hrecord
    rw [List.getElem?_map, Option.map_eq_some_iff] at hrecord
    obtain ⟨entry, hentry, rfl⟩ := hrecord
    have hlogged := (h.mem_iff entry).mpr (by
      rw [List.take_length]
      exact List.mem_of_getElem? hentry)
    obtain ⟨file, hfile, hmem⟩ := List.mem_flatMap.mp hlogged
    exact ⟨file, hfile, entry, hmem, hnumber hentry, rfl⟩

end Files

/-! ## What a run has called and written -/

namespace AdvancedHuntingHelper

variable {helper : AdvancedHuntingHelper} {services : ActionServices} {vars vars' : HuntVars}
  {num : ℕ} {row : Row} {rows : List Row} {report : HuntReport} {s t : ActionState}
  {call : ApiRequest × Json}

theorem Hunted.hunts (h : Hunted helper services row vars s vars' report t call) :
    helper.Hunts row call := by
  obtain ⟨urls, hresolved, hurl⟩ := h.answered.tenantId
  refine ⟨report.tenantId, urls, report.query, hresolved, h.method, hurl, h.answered.query,
    fun v hv ↦ ?_, fun v hv ↦ ?_⟩
  · have htenantId := h.tenantId
    rw [nonemptyStr?_orStr, nonemptyStr?_orStr, hv] at htenantId
    exact (Option.some.inj htenantId).symm
  · rw [h.query, hv, Option.getD_some]

theorem Hunted.length_events (h : Hunted helper services row vars s vars' report t call) :
    t.events.length = s.events.length + (helper.returned call.2).length := by
  rw [h.events, List.length_append, ← h.answered.events, List.length_map]

/-- What a completed loop has done: it has made a call for each event, and the buffer holds the
results in the answers; it was written to its end if it was before, or is one of the times. -/
structure HuntedEach (helper : AdvancedHuntingHelper) (services : ActionServices)
    (rows : List Row) (s t : ActionState) (calls : List (ApiRequest × Json)) : Prop where
  made : t.calls = s.calls ++ calls
  hunts : List.Forall₂ helper.Hunts rows calls
  raws : t.events.map ActionEvent.raw =
    s.events.map ActionEvent.raw ++ calls.flatMap fun call ↦ helper.returned call.2
  numbers : NumberedFrom 0 s.events → NumberedFrom 0 t.events
  logged : ∀ n, s.LoggedTo n → ∃ n', t.LoggedTo n' ∧ (n' = t.events.length ↔
    n = t.events.length ∨ WritesAll services.spool t.events.length s.events.length
      s.spool.attempts (recordCounts helper.returned calls))

theorem HuntedEach.length_le {calls : List (ApiRequest × Json)}
    (h : HuntedEach helper services rows s t calls) : s.events.length ≤ t.events.length := by
  have hraws := congrArg List.length h.raws
  rw [List.length_map, List.length_append, List.length_map] at hraws
  omega

theorem exists_huntedEach {reports : List HuntReport}
    (h : helper.huntEach services vars num rows s = .ok reports t) :
    ∃ calls, HuntedEach helper services rows s t calls := by
  induction rows generalizing vars num s reports with
  | nil =>
    obtain ⟨-, rfl⟩ := EStateM.Result.ok.inj h
    exact ⟨[], (List.append_nil _).symm, .nil, (List.append_nil _).symm, id, fun n hn ↦
      ⟨n, hn, (or_iff_left id).symm⟩⟩
  | cons row rows ih =>
    obtain ⟨⟨vars₁, report⟩, s₁, hevent, hrest⟩ := bind_eq_ok_iff_exists.mp h
    obtain ⟨reports, s₂, heach, hreturn⟩ := bind_eq_ok_iff_exists.mp hrest
    obtain ⟨-, rfl⟩ := EStateM.Result.ok.inj hreturn
    obtain ⟨call, hhunted⟩ := exists_hunted_of_huntEvent hevent
    obtain ⟨calls, heach⟩ := ih heach
    refine ⟨call :: calls, ?_, .cons hhunted.hunts heach.hunts, ?_, fun hnumbers ↦ ?_,
      fun n hn ↦ ?_⟩
    · rw [heach.made, hhunted.calls, List.append_assoc, List.singleton_append]
    · rw [heach.raws, hhunted.events, List.map_append, hhunted.answered.events, List.flatMap_cons,
        List.append_assoc]
    · refine heach.numbers ?_
      rw [hhunted.events]
      refine hnumbers.append ?_
      rw [Nat.zero_add]
      exact hhunted.numbers
    · obtain ⟨n₁, hn₁, hattempts, hend₁⟩ := hn.of_written hhunted.events hhunted.spool
      obtain ⟨n', hn', hend⟩ := heach.logged n₁ hn₁
      refine ⟨n', hn', ?_⟩
      have hcounts : recordCounts helper.returned (call :: calls) =
        (helper.returned call.2).length :: recordCounts helper.returned calls := rfl
      rw [hend, hcounts, WritesAll, ← hhunted.length_events, ← hattempts, ← or_assoc]
      refine or_congr_left ?_
      -- the end is reached here if nothing is added later, and the buffer is written here
      have hle := heach.length_le
      have hle₁ := hn₁.le
      have hle₀ := hn.le
      have hlength := hhunted.length_events
      by_cases hsame : s₁.events.length = s₂.events.length
      · rw [← hsame, hend₁]
        simp
      · exact iff_of_false (by omega) (by omega)

end AdvancedHuntingHelper

namespace UpdateIncidentHelper

variable {helper : UpdateIncidentHelper} {services : ActionServices} {rows : List Row}
  {s t : ActionState}

/-- What a completed run has done: it has made a call for each event that asks, and the buffer holds
what their answers become; it was written to its end if every file could be. -/
structure UpdatedAll (helper : UpdateIncidentHelper) (services : ActionServices) (rows : List Row)
    (s t : ActionState) (calls : List (ApiRequest × Json)) : Prop where
  made : t.calls = s.calls ++ calls
  updates : List.Forall₂ helper.Updates (rows.filter helper.Asks) calls
  raws : t.events.map ActionEvent.raw =
    s.events.map ActionEvent.raw ++ calls.flatMap fun call ↦ recorded call.2
  numbers : NumberedFrom 0 s.events → NumberedFrom 0 t.events
  logged : ∀ n, s.LoggedTo n → ∃ n', t.LoggedTo n' ∧ (n' = t.events.length ↔
    n = t.events.length ∨ calls ≠ [] ∧
      ∀ i < filesFor t.events.length, (services.spool (s.spool.attempts + i)).ok)

theorem raws_of_answeredBy {reports : List UpdateReport} {calls : List (ApiRequest × Json)}
    (h : List.Forall₂ (fun report call ↦ report.AnsweredBy helper call) reports calls) :
    (reports.flatMap UpdateReport.events).map ActionEvent.raw =
      calls.flatMap fun call ↦ recorded call.2 := by
  induction h with
  | nil => rfl
  | cons hanswered _ ih =>
    rw [List.flatMap_cons, List.map_append, hanswered.events, ih, List.flatMap_cons]

theorem exists_updatedAll {status : ℤ}
    (h : helper.processEvents services rows s = .ok status t) :
    ∃ calls, UpdatedAll helper services rows s t calls := by
  obtain ⟨vars, reports, u, heach, hwritten⟩ := exists_of_processEvents h
  obtain ⟨hupdated, -⟩ := updated_of_updateEach heach
  obtain ⟨calls, hcalls, hupdates, hanswered⟩ := hupdated.calls
  have hkept : t.calls = u.calls ∧ t.events = u.events := by
    split_ifs at hwritten with hsome
    · exact ⟨hwritten.2.2, hwritten.2.1⟩
    · exact ⟨by rw [hwritten], by rw [hwritten]⟩
  have hevents : t.events = s.events ++ reports.flatMap UpdateReport.events := by
    rw [hkept.2, hupdated.events]
  refine ⟨calls, ?_, hupdates, ?_, fun hnumbers ↦ ?_, fun n hn ↦ ?_⟩
  · rw [hkept.1, hcalls]
  · rw [hevents, List.map_append, raws_of_answeredBy hanswered]
  · rw [hevents]
    refine hnumbers.append ?_
    rw [Nat.zero_add]
    exact hupdated.numbers
  · split_ifs at hwritten with hsome
    · have hspool := hwritten.1
      rw [← hkept.2, hupdated.spool] at hspool
      obtain ⟨n', hn', -, hend⟩ := hn.of_written hevents hspool
      have hcalls : calls ≠ [] := by
        rw [hanswered.length_eq] at hsome
        exact fun hnil ↦ hsome (hnil ▸ rfl)
      exact ⟨n', hn', by rw [hend, and_iff_right hcalls]⟩
    · -- nothing was asked for, and nothing happened
      obtain rfl : reports = [] := List.length_eq_zero_iff.mp (not_not.mp hsome)
      obtain rfl : calls = [] := List.length_eq_zero_iff.mp hanswered.length_eq.symm
      rw [List.flatMap_nil, List.append_nil] at hevents
      have hspool : t.spool = s.spool := by rw [hwritten, hupdated.spool]
      refine ⟨n, ⟨hevents ▸ hn.le, by rw [hspool, hevents]; exact hn.mem_iff⟩, ?_⟩
      exact (or_iff_left fun h ↦ h.1 rfl).symm

end UpdateIncidentHelper

/-! ## What code 0 means -/

namespace ActionScript

variable {H : Type} {script : ActionScript H} {host : ActionHost} {helper : H} {rows : List Row}
  {s t : ActionState}

theorem Finishes.calls (h : script.Finishes host helper rows s t) : s.calls = [] := by
  obtain ⟨worker, -, -, hmeta⟩ := h.started
  refine Preserves.of_ok (f := ActionState.calls) ?_ hmeta
  refine (preserves_liftExcept _).bind fun results ↦ ?_
  split
  · exact preserves_pure _
  · exact preserves_calls_updateIds _

theorem Finishes.kept (h : script.Finishes host helper rows s t) : newAction.Kept s := by
  obtain ⟨worker, -, -, hmeta⟩ := h.started
  have hkeeps : Keeps (prepareMetaForCam host worker) := by
    refine (keeps_liftExcept _).bind fun results ↦ ?_
    split
    · exact keeps_pure _
    · exact keeps_updateIds _
  exact (hkeeps newAction).of_ok hmeta

theorem Finishes.loggedTo (h : script.Finishes host helper rows s t) : s.LoggedTo 0 := by
  refine ⟨Nat.zero_le _, fun entry ↦ ?_⟩
  rw [Spool.logged, h.kept.spool, List.take_zero]
  exact Iff.rfl

/-- Where a finished process has always made its calls, an exit code of 0 means what it should if
what it left is written. -/
theorem means_iff (hsound : script.Sound)
    {Called Written Condition : H → List Row → ActionState → ActionState → Prop}
    (hcalled : ∀ {helper rows s t}, script.Finishes host helper rows s t → Called helper rows s t)
    (hwritten : ∀ {helper rows s t}, script.Finishes host helper rows s t →
      (Written helper rows s t ↔ Condition helper rows s t)) :
    (script.Means host fun helper rows s t ↦ Called helper rows s t ∧ Written helper rows s t) ↔
      ∀ helper rows s t, script.Finishes host helper rows s t → Condition helper rows s t := by
  rw [Means, exitCode_eq_zero_iff hsound]
  constructor
  · intro h helper rows s t hfinishes
    obtain ⟨_, _, _, _, hfinishes', -, hdone⟩ := h ⟨helper, rows, s, t, hfinishes⟩
    obtain ⟨rfl, rfl, rfl, rfl⟩ := hfinishes.unique hfinishes'
    exact (hwritten hfinishes).mp hdone
  · rintro h ⟨helper, rows, s, t, hfinishes⟩
    exact ⟨helper, rows, s, t, hfinishes, hcalled hfinishes,
      (hwritten hfinishes).mpr (h helper rows s t hfinishes)⟩

end ActionScript

theorem length_flatMap_records (records : Json → List Json) (calls : List (ApiRequest × Json)) :
    (calls.flatMap fun call ↦ records call.2).length = (recordCounts records calls).sum := by
  rw [recordCounts, List.length_flatMap]

theorem means_defenderAdvancedHunting_iff (host : ActionHost) :
    DefenderAction.defenderAdvancedHunting.Honest host ↔
      DefenderAction.defenderAdvancedHunting.Spools host := by
  refine ActionScript.means_iff (sound_defenderAdvancedHunting host) (fun h ↦ ?_)
    fun {helper rows s t} h ↦ ?_
  · obtain ⟨_, hprocessed⟩ := h.processed
    obtain ⟨_, heach⟩ := AdvancedHuntingHelper.exists_of_processEvents hprocessed
    obtain ⟨calls, heach⟩ := AdvancedHuntingHelper.exists_huntedEach heach
    rw [heach.made, h.calls, List.nil_append]
    exact heach.hunts
  · obtain ⟨_, hprocessed⟩ := h.processed
    obtain ⟨_, heach⟩ := AdvancedHuntingHelper.exists_of_processEvents hprocessed
    obtain ⟨calls, heach⟩ := AdvancedHuntingHelper.exists_huntedEach heach
    obtain ⟨n, hn, hend⟩ := heach.logged 0 h.loggedTo
    have hraws : t.events.map ActionEvent.raw =
        calls.flatMap fun call ↦ helper.returned call.2 := by
      rw [heach.raws, h.kept.events]
      rfl
    have hnumbers : NumberedFrom 0 t.events := heach.numbers (by rw [h.kept.events]; rfl)
    rw [h.kept.events, h.kept.spool] at hend
    rw [heach.made, h.calls, List.nil_append, hn.wrote_iff hnumbers hraws, hend,
      ← length_flatMap_records, ← hraws, List.length_map]
    exact or_congr_left eq_comm

theorem means_defenderUpdateIncident_iff (host : ActionHost) :
    DefenderAction.defenderUpdateIncident.Honest host ↔
      DefenderAction.defenderUpdateIncident.Spools host := by
  refine ActionScript.means_iff (sound_defenderUpdateIncident host) (fun h ↦ ?_)
    fun {helper rows s t} h ↦ ?_
  · obtain ⟨_, hprocessed⟩ := h.processed
    obtain ⟨calls, hall⟩ := UpdateIncidentHelper.exists_updatedAll hprocessed
    rw [hall.made, h.calls, List.nil_append]
    exact hall.updates
  · obtain ⟨_, hprocessed⟩ := h.processed
    obtain ⟨calls, hall⟩ := UpdateIncidentHelper.exists_updatedAll hprocessed
    obtain ⟨n, hn, hend⟩ := hall.logged 0 h.loggedTo
    have hraws : t.events.map ActionEvent.raw = calls.flatMap fun call ↦ recorded call.2 := by
      rw [hall.raws, h.kept.events]
      rfl
    have hnumbers : NumberedFrom 0 t.events := hall.numbers (by rw [h.kept.events]; rfl)
    rw [h.kept.spool] at hend
    rw [hall.made, h.calls, List.nil_append, hn.wrote_iff hnumbers hraws, hend,
      ← length_flatMap_records, ← hraws, List.length_map]
    -- an empty buffer takes no file, and without a call it is empty
    constructor
    · rintro (hzero | ⟨-, hok⟩) i hi
      · rw [← hzero] at hi
        exact absurd hi (Nat.not_lt_zero i)
      · rw [← Nat.zero_add i]
        exact hok i hi
    · intro hok
      refine or_iff_not_imp_left.mpr fun hne ↦ ⟨?_, fun i hi ↦ ?_⟩
      · rintro rfl
        exact hne (by rw [List.map_eq_nil_iff.mp hraws]; rfl)
      · rw [show newAction.spool.attempts + i = i from Nat.zero_add i]
        exact hok i hi

/-- **Code 0 promises the calls, and the spool only if it can be written.** For every process of
the three actions and every failure in it: the exit code is 0 only if every event, or for updates
every event with an incident, had its API call succeed and every record in the answers was written
to a spool file, exactly if in a run that goes through all its events, and is answered with some
record, one of the times that the buffer is written with all of them every file can be. -/
theorem honest_iff (action : DefenderAction) (host : ActionHost) :
    action.Honest host ↔ action.Spools host := by
  cases action with
  | defenderAdvancedHunting => exact means_defenderAdvancedHunting_iff host
  | defenderUpdateIncident => exact means_defenderUpdateIncident_iff host
  | defenderUpdateIncidentGraph => exact means_defenderUpdateIncident_iff host

/-! ## A spool directory that cannot be written to -/

/-- Every query returns one result, and no file can be written. -/
def fullDisk : ActionServices where
  hostname := some "host"
  currentVersion := some "2.0"
  proxy _ := none
  accessToken _ _ := .ok (.str "token")
  request n _ := .ok (.obj [("Results", .arr [.int n])])
  spool n := ⟨toString n, false⟩

/-- A hunt for one event. -/
def fullDiskHost : ActionHost where
  argv := ["defender_advanced_hunting.py", "--execute"]
  argvText := "['defender_advanced_hunting.py', '--execute']"
  worker := .ok ⟨⟨"defender_advanced_hunting", "1700000000.1", ""⟩, some "key",
    [("query", "DeviceInfo"), ("tenant_id", "t1")]⟩
  logLevel := none
  metaResults := .ok [inIndex "a"]
  results := .ok [inIndex "a"]
  credentials := .ok ⟨some "id", some "secret", none⟩
  account := .error (.systemExit 1)
  services := fullDisk
  worker_exits _ h := absurd h.symm error_ne_ok
  logLevel_exits _ h := absurd h (Option.some_ne_none _).symm
  metaResults_exits _ h := absurd h.symm error_ne_ok
  results_exits _ h := absurd h.symm error_ne_ok
  credentials_exits _ h := absurd h.symm error_ne_ok
  account_exits e h := by
    obtain rfl := Except.error.inj h
    exact fun hexit ↦ absurd (PyError.systemExit.inj hexit) (by decide)
  proxy_exits _ _ h := absurd h (Option.some_ne_none _).symm
  accessToken_exits _ _ _ h := absurd h.symm error_ne_ok
  request_exits _ _ _ h := absurd h.symm error_ne_ok

/-- The hunt exits with 0, and its result is in no file. -/
theorem not_honest : ¬∀ (action : DefenderAction) (host : ActionHost), action.Honest host := by
  intro h
  obtain ⟨helper, rows, s, t, hfinishes, hcounts⟩ : ∃ helper rows s t,
      (defenderAdvancedHunting fullDiskHost).Finishes fullDiskHost helper rows s t ∧
        recordCounts helper.returned t.calls = [1] :=
    ⟨_, _, _, _, ⟨⟨_, rfl, rfl, rfl⟩, rfl, ⟨_, rfl⟩, ⟨_, rfl⟩⟩, rfl⟩
  have hspools := (means_defenderAdvancedHunting_iff fullDiskHost).mp
    (h .defenderAdvancedHunting fullDiskHost) helper rows s t hfinishes
  rw [hcounts] at hspools
  rcases hspools with hnone | ⟨-, hok⟩ | hlater
  · exact absurd hnone (by decide)
  · exact absurd (hok 0 (by decide)) Bool.false_ne_true
  · exact hlater

end MsSecurity
