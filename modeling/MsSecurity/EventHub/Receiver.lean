import MsSecurity.EventHub.AtLeastOnce

/-!
# The receiver of a partition

The SDK's `EventHubConsumer` keeps a buffer of the messages that have arrived. When its link breaks
it opens another one after the last event it has handed over, and keeps the buffer, so that messages
may be in it twice and out of order. What holds of it is that there are no gaps: every message has
all earlier ones before it, in the buffer or among the events that have been processed.

## Main results

* `EventHubConsumer.GapFree`: the invariant, with a lemma for each thing a receiver does.
* `EventHubConsumer.GapFree.mem_of_lt`: what it is for; no event below the link is skipped.
-/

namespace MsSecurity

/-! ## Positions without gaps -/

/-- How far positions reach that come after those below `n`. -/
def reach : ℕ → List ℕ → ℕ
  | n, [] => n
  | n, k :: positions => reach (max n (k + 1)) positions

/-- Every position comes after all those below it, of which those below `n` are there already. -/
def Gapless : ℕ → List ℕ → Prop
  | _, [] => True
  | n, k :: positions => k ≤ n ∧ Gapless (max n (k + 1)) positions

section Gapless

variable {n first size k : ℕ} {positions positions' : List ℕ}

theorem reach_append :
    reach n (positions ++ positions') = reach (reach n positions) positions' := by
  induction positions generalizing n with
  | nil => rfl
  | cons k positions ih => exact ih

theorem gapless_append :
    Gapless n (positions ++ positions') ↔
      Gapless n positions ∧ Gapless (reach n positions) positions' := by
  induction positions generalizing n with
  | nil => exact (and_iff_right trivial).symm
  | cons k positions ih =>
    rw [List.cons_append, Gapless, Gapless, ih, reach, and_assoc]

theorem le_reach (n : ℕ) (positions : List ℕ) : n ≤ reach n positions := by
  induction positions generalizing n with
  | nil => exact le_rfl
  | cons k positions ih => exact (le_max_left _ _).trans (ih _)

theorem lt_reach_of_mem (hk : k ∈ positions) : k < reach n positions := by
  induction positions generalizing n with
  | nil => exact absurd hk List.not_mem_nil
  | cons first positions ih =>
    rcases List.mem_cons.mp hk with rfl | hk
    · exact (le_max_right n (k + 1)).trans (le_reach _ _)
    · exact ih hk

/-- Below what they reach, everything is among the positions, or was there already. -/
theorem mem_of_lt_reach (h : Gapless n positions) (hk : k < reach n positions) :
    k < n ∨ k ∈ positions := by
  induction positions generalizing n with
  | nil => exact Or.inl hk
  | cons first positions ih =>
    rcases ih h.2 hk with hlt | hmem
    · rcases lt_max_iff.mp hlt with hlt | hlt
      · exact Or.inl hlt
      · rcases (Nat.le_of_lt_succ hlt).lt_or_eq with hlt | rfl
        · exact Or.inl (hlt.trans_le h.1)
        · exact Or.inr List.mem_cons_self
    · exact Or.inr (List.mem_cons_of_mem _ hmem)

theorem gapless_range' (h : first ≤ n) (size : ℕ) : Gapless n (List.range' first size) := by
  induction size generalizing n first with
  | zero => trivial
  | succ size ih => exact ⟨h, ih (le_max_right n (first + 1))⟩

theorem le_reach_range' (h : first ≤ n) (size : ℕ) :
    first + size ≤ reach n (List.range' first size) := by
  induction size generalizing n first with
  | zero => exact h
  | succ size ih =>
    rw [← Nat.add_assoc, Nat.add_right_comm]
    exact ih (le_max_right n (first + 1))

end Gapless

/-! ## The receiver -/

/-- `EventHubConsumer`, as far as it decides which events it hands over. Events are positions of its
partition. -/
structure EventHubConsumer where
  /-- `_offset`, where a new link starts. -/
  offset : String
  /-- The event that the open link delivers next. -/
  link : Option ℕ
  messageBuffer : List ℕ
  lastReceivedEvent : Option ℕ
  stop : Bool
  deriving DecidableEq

/-- What goes wrong in a try to receive. -/
inductive LinkFailure
  /-- The link could not be opened: `receive` returns. -/
  | unopened
  /-- It is tried again, on a new link if this one has been closed. -/
  | retried (closed : Bool)
  /-- It is raised at once. -/
  | raised (e : PyError)

/-- What happens in one try: where a new link starts, how many messages arrive, and what goes wrong
after that. -/
structure Attempt where
  opens : Option ℕ
  delivered : ℕ
  failure : Option LinkFailure

namespace EventHubConsumer

/-- `get_init_event_position`, and a new consumer; the position is that of the checkpoint, or the
beginning. -/
def start (checkpoint : Option Checkpoint) : EventHubConsumer where
  offset := match checkpoint with
    | some checkpoint => if checkpoint.offset ≠ "" then checkpoint.offset else "-1"
    | none => "-1"
  link := none
  messageBuffer := []
  lastReceivedEvent := none
  stop := false

/-- The link after `_open`. -/
def opened (consumer : EventHubConsumer) (attempt : Attempt) : Option ℕ :=
  consumer.link.or attempt.opens

/-- `_open` and `do_work`: what arrives is put into the buffer. -/
def work (consumer : EventHubConsumer) (attempt : Attempt) : EventHubConsumer :=
  match consumer.opened attempt with
  | some first => { consumer with
      link := some (first + attempt.delivered)
      messageBuffer := consumer.messageBuffer ++ List.range' first attempt.delivered }
  | none => consumer

/-- The `except` branch of a try: the next link starts after the last event handed over. -/
def reset (consumer : EventHubConsumer) (event : ℕ → HubEvent) (closed : Bool) :
    EventHubConsumer where
  offset := match consumer.lastReceivedEvent with
    | some k => (event k).offset
    | none => consumer.offset
  link := if closed then none else consumer.link
  messageBuffer := consumer.messageBuffer
  lastReceivedEvent := consumer.lastReceivedEvent
  stop := consumer.stop

/-- The events handed over at once. -/
def batch (consumer : EventHubConsumer) (maxBatchSize : ℕ) : List ℕ :=
  consumer.messageBuffer.take maxBatchSize

/-- `_next_message_in_buffer`, for each of them. -/
def taken (consumer : EventHubConsumer) (maxBatchSize : ℕ) : EventHubConsumer :=
  { consumer with
    messageBuffer := consumer.messageBuffer.drop maxBatchSize
    lastReceivedEvent := (consumer.batch maxBatchSize).getLast?.or consumer.lastReceivedEvent }

end EventHubConsumer

/-- The service: a link delivers from the beginning, or what comes after the event at an offset. -/
def Hub.StartsAt (hub : Hub) (partitionId : ℕ) (offset : String) (first : ℕ) : Prop :=
  if offset = "-1" then first = 0
  else ∃ k, (hub.event partitionId k).offset = offset ∧ first = k + 1

/-! ## No gaps -/

namespace EventHubConsumer

/-- The events below `n` have been processed, the buffer goes on from there without gaps, and a link
goes on from the buffer or from an earlier event. -/
structure GapFree (hub : Hub) (g : Set (ℕ × HubEvent)) (partitionId n : ℕ)
    (consumer : EventHubConsumer) : Prop where
  processed : ∀ j < n, (partitionId, hub.event partitionId j) ∈ g
  offset : consumer.offset = "-1" ∨
    ∃ k < n, (hub.event partitionId k).offset = consumer.offset
  last : ∀ k, consumer.lastReceivedEvent = some k → k < n
  gapless : Gapless n consumer.messageBuffer
  link : ∀ first, consumer.link = some first → first ≤ reach n consumer.messageBuffer

namespace GapFree

variable {hub : Hub} {g g' : Set (ℕ × HubEvent)} {partitionId n : ℕ} {consumer : EventHubConsumer}

theorem mono (h : consumer.GapFree hub g partitionId n) (hle : g ≤ g') :
    consumer.GapFree hub g' partitionId n :=
  { h with processed := fun j hj ↦ hle (h.processed j hj) }

/-- Below its link, every event has been processed or is in the buffer. -/
theorem mem_of_lt (h : consumer.GapFree hub g partitionId n) {first j : ℕ}
    (hlink : consumer.link = some first) (hj : j < first) :
    (partitionId, hub.event partitionId j) ∈ g ∨ j ∈ consumer.messageBuffer :=
  (mem_of_lt_reach h.gapless (hj.trans_le (h.link first hlink))).imp_left (h.processed j)

theorem start {checkpoint : Option Checkpoint} (h : ∀ c, checkpoint = some c →
      c.partitionId = partitionId ∧ ConsumerPool.UpTo hub g c.progress) :
    ∃ n, (EventHubConsumer.start checkpoint).GapFree hub g partitionId n := by
  have hbeginning (c : EventHubConsumer) (hoffset : c.offset = "-1") (hlink : c.link = none)
      (hbuffer : c.messageBuffer = []) (hlast : c.lastReceivedEvent = none) :
      ∃ n, c.GapFree hub g partitionId n := by
    refine ⟨0, fun j hj ↦ absurd hj (Nat.not_lt_zero j), Or.inl hoffset, fun k hk ↦ ?_, ?_,
      fun first hfirst ↦ ?_⟩
    · exact absurd (hlast.symm.trans hk) (Option.some_ne_none k).symm
    · rw [hbuffer]
      trivial
    · exact absurd (hlink.symm.trans hfirst) (Option.some_ne_none first).symm
  cases checkpoint with
  | none => exact hbeginning _ rfl rfl rfl rfl
  | some c =>
    obtain ⟨rfl, hupTo⟩ := h c rfl
    by_cases hempty : c.offset = ""
    · refine hbeginning _ ?_ rfl rfl rfl
      rw [EventHubConsumer.start]
      exact if_neg (not_not.mpr hempty)
    · obtain ⟨k, hk, hall⟩ := hupTo.resolve_left hempty
      refine ⟨k + 1, fun j hj ↦ hall j (Nat.le_of_lt_succ hj), Or.inr ⟨k, Nat.lt_succ_self k, ?_⟩,
        fun _ hlast ↦ (Option.some_ne_none _ hlast.symm).elim, trivial,
        fun _ hlink ↦ (Option.some_ne_none _ hlink.symm).elim⟩
      rw [EventHubConsumer.start]
      exact hk.trans (if_pos hempty).symm

theorem work (h : consumer.GapFree hub g partitionId n) {attempt : Attempt}
    (hopens : consumer.link = none → ∀ first, attempt.opens = some first →
      hub.StartsAt partitionId consumer.offset first) :
    (consumer.work attempt).GapFree hub g partitionId n := by
  have hle : ∀ first, consumer.opened attempt = some first →
      first ≤ reach n consumer.messageBuffer := by
    intro first hfirst
    cases hlink : consumer.link with
    | some position =>
      rw [opened, hlink, Option.some_or] at hfirst
      exact h.link first (hlink.trans hfirst)
    | none =>
      rw [opened, hlink, Option.none_or] at hfirst
      have hstarts := hopens hlink first hfirst
      rw [Hub.StartsAt] at hstarts
      split_ifs at hstarts with hbeginning
      · rw [hstarts]
        exact Nat.zero_le _
      · -- an offset names one event
        obtain ⟨k, hk, rfl⟩ := hstarts
        obtain ⟨k', hk', hoffset⟩ := h.offset.resolve_left hbeginning
        obtain rfl := hub.offset_injective _ (hk.trans hoffset.symm)
        exact hk'.trans_le (le_reach _ _)
  rw [EventHubConsumer.work]
  cases hopened : consumer.opened attempt with
  | none => exact h
  | some first =>
    have hfirst := hle first hopened
    refine ⟨h.processed, h.offset, h.last, ?_, fun position hposition ↦ ?_⟩
    · exact gapless_append.mpr ⟨h.gapless, gapless_range' hfirst _⟩
    · obtain rfl := Option.some.inj hposition
      rw [reach_append]
      exact le_reach_range' hfirst _

theorem reset (h : consumer.GapFree hub g partitionId n) (closed : Bool) :
    (consumer.reset (hub.event partitionId) closed).GapFree hub g partitionId n := by
  refine ⟨h.processed, ?_, h.last, h.gapless, fun first hfirst ↦ ?_⟩
  · rw [EventHubConsumer.reset]
    cases hlast : consumer.lastReceivedEvent with
    | none => exact h.offset
    | some k => exact Or.inr ⟨k, h.last k hlast, rfl⟩
  · rw [EventHubConsumer.reset] at hfirst
    cases closed with
    | true => exact absurd hfirst.symm (Option.some_ne_none first)
    | false => exact h.link first hfirst

theorem cancelled (h : consumer.GapFree hub g partitionId n) :
    GapFree hub g partitionId n { consumer with stop := true } :=
  ⟨h.processed, h.offset, h.last, h.gapless, h.link⟩

/-- Once the events handed over have been processed too, the rest goes on from there. -/
theorem taken (h : consumer.GapFree hub g partitionId n) {maxBatchSize : ℕ} (hle : g ≤ g')
    (hbatch : ∀ k ∈ consumer.batch maxBatchSize, (partitionId, hub.event partitionId k) ∈ g') :
    (consumer.taken maxBatchSize).GapFree hub g' partitionId
      (reach n (consumer.batch maxBatchSize)) := by
  have hsplit := List.take_append_drop maxBatchSize consumer.messageBuffer
  have hgapless := h.gapless
  rw [← hsplit, gapless_append] at hgapless
  have hreach := le_reach n (consumer.batch maxBatchSize)
  refine ⟨fun j hj ↦ ?_, ?_, fun k hk ↦ ?_, hgapless.2, fun first hfirst ↦ ?_⟩
  · rcases mem_of_lt_reach hgapless.1 hj with hlt | hmem
    · exact hle (h.processed j hlt)
    · exact hbatch j hmem
  · exact h.offset.imp_right fun ⟨k, hk, hoffset⟩ ↦ ⟨k, hk.trans_le hreach, hoffset⟩
  · rcases Option.or_eq_some_iff.mp hk with hlast | ⟨-, hlast⟩
    · exact lt_reach_of_mem (List.mem_of_getLast? hlast)
    · exact (h.last k hlast).trans_le hreach
  · have hlink := h.link first hfirst
    rw [← hsplit, reach_append] at hlink
    exact hlink

end GapFree

end EventHubConsumer

end MsSecurity
