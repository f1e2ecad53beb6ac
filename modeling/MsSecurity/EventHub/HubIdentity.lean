import MsSecurity.EventHub.Consumer
import MsSecurity.Transition.Pool
import Mathlib.Data.Set.Basic
import Mathlib.Data.Set.BooleanAlgebra
import Mathlib.Order.CompletePartialOrder
import Mathlib.Order.Hom.Basic

/-!
# Whose checkpoints are listed

The document is keyed by the name of the input. What the input reads, a namespace, an event hub and
a consumer group, can be edited between two runs, and the document says nothing of it:
`list_checkpoints` returns what is stored under the identity that its caller passes. A run starts
with a new document only if the number of records is not the number of partitions.

So each offset listed was stored for the identity it is listed under (`faithful_of_sameIdentity`) in
the runs in which a document with as many records as there are partitions was initialized under the
identity of the run, and it is another event hub's where the new one has as many partitions
(`listed_of_other_hub`).
-/

namespace MsSecurity

/-! ## Calls, world and steps -/

/-- The calls of one run of an input. -/
inductive InputCall
  | construct (partitionIds : List ℕ)
  | listOwnership (hub : HubId)
  | claimOwnership (ownerships : List Ownership)
  | listCheckpoints (hub : HubId)
  | updateCheckpoint (checkpoint : Checkpoint)
  deriving DecidableEq

/-- The program of a call; the result is what `list_checkpoints` returned. -/
def InputCall.body : InputCall → StoreProg (List Checkpoint)
  | .construct partitionIds => do
    KVCheckpointStore.init partitionIds
    return []
  | .listOwnership hub => do
    let _ ← KVCheckpointStore.listOwnership hub
    return []
  | .claimOwnership ownerships => do
    let _ ← KVCheckpointStore.claimOwnership ownerships
    return []
  | .listCheckpoints hub => KVCheckpointStore.listCheckpoints hub
  | .updateCheckpoint checkpoint => do
    KVCheckpointStore.updateCheckpoint checkpoint
    return []

/-- The document of an input over its runs. -/
structure InputWorld where
  document : Option (List Record)
  /-- What the input reads in the present run. -/
  hub : HubId
  /-- What it read in the run that initialized the document. -/
  origin : Option HubId
  /-- What `update_checkpoint` has stored, in all runs. -/
  stored : List Checkpoint

namespace InputWorld

/-- The identity under which the document was initialized, after a request. -/
def originAfter (w : InputWorld) (outcome : Outcome) : Request → Option HubId
  | .update (.initial _) _ => if outcome.takesEffect then some w.hub else w.origin
  | _ => w.origin

/-- The stored checkpoints after a request. -/
def storedAfter (w : InputWorld) (outcome : Outcome) : Request → List Checkpoint
  | .update (.checkpoint c) _ => if outcome.takesEffect then c :: w.stored else w.stored
  | _ => w.stored

/-- How the world answers a request. -/
def serve (w : InputWorld) (_ : ℕ) (e : Request) (outcome : Outcome) :
    Option (Answer e × InputWorld) :=
  some (outcome.answer w.document e, {
    document := outcome.documentAfter w.document e
    hub := w.hub
    origin := w.originAfter outcome e
    stored := w.storedAfter outcome e })

end InputWorld

abbrev InputPool := Pool InputWorld InputCall Request Answer PyError (List Checkpoint)

/-- What can happen to an input: its process is started, after an edit or not, or its calls act. -/
inductive InputAction
  | begin (hub : HubId) (partitionIds : List ℕ)
  | run (action : PoolAction InputCall Outcome)

namespace InputPool

/-- One action. A run begins with the construction of the store, and ends the run before. -/
def step (p : InputPool) : InputAction → Option InputPool
  | .begin hub partitionIds => some
      ⟨{ p.world with hub := hub },
        [⟨.construct partitionIds, InputCall.body (.construct partitionIds)⟩]⟩
  | .run a => Pool.step InputCall.body InputWorld.serve p a

/-- A construction that returned. -/
def isConstruction : Thread InputCall Request Answer PyError (List Checkpoint) → Bool
  | ⟨.construct _, .pure _⟩ => true
  | _ => false

/-- The store of this run has been constructed. -/
def Constructed (p : InputPool) : Prop := p.threads.head?.any isConstruction

instance (p : InputPool) : Decidable p.Constructed :=
  inferInstanceAs (Decidable (p.threads.head?.any isConstruction = true))

/-- A run uses its store once it is constructed, and under its own identity. -/
def Uses (p : InputPool) : InputAction → Prop
  | .begin _ _ => True
  | .run (.act _ _) => True
  | .run (.start call) => p.Constructed ∧ match call with
    | .construct _ => False
    | .listOwnership hub => hub = p.world.hub
    | .claimOwnership _ => True
    | .listCheckpoints hub => hub = p.world.hub
    | .updateCheckpoint checkpoint => checkpoint.hub = p.world.hub

/-- A run that finds a document with as many records as it has partitions has the identity under
which that document was initialized. -/
def SameIdentity (p : InputPool) : InputAction → Prop
  | .begin hub partitionIds => ∀ records ∈ p.world.document,
      records.length = partitionIds.length → p.world.origin = some hub
  | .run _ => True

/-- Whatever is listed under an identity is initial, or was stored under that identity. -/
def Faithful (p : InputPool) : Prop :=
  ∀ (i : ℕ) (hub : HubId) (checkpoints : List Checkpoint),
    p.threads[i]? = some ⟨.listCheckpoints hub, .pure checkpoints⟩ → ∀ c ∈ checkpoints,
      c.hub = hub ∧ (c.offset = "" ∧ c.sequenceNumber = 0 ∨ c ∈ p.world.stored)

/-! ## What a call is obliged to -/

/-- What a call relies on: the progress stored under the identity of its run, and whether the
document was initialized under it. -/
abbrev Facts := Set (ℕ × String × ℤ) × Prop

/-- The progress stored under an identity. -/
def storedUnder (w : InputWorld) (hub : HubId) : Set (ℕ × String × ℤ) :=
  { x | ∃ c ∈ w.stored, c.hub = hub ∧ c.progress = x }

def view (w : InputWorld) (_ : ℕ) : Facts := (storedUnder w w.hub, w.origin = some w.hub)

/-- Progress that is initial or in `stored`. -/
def InitialOr (stored : Set (ℕ × String × ℤ)) (x : ℕ × String × ℤ) : Prop :=
  x.2.1 = "" ∧ x.2.2 = 0 ∨ x ∈ stored

/-- The property of stored progress in a run under an identity, with a number of partitions. -/
def progress (hub : HubId) (n : ℕ) : Progress Facts where
  Good g := InitialOr g.1
  May _ c := c.hub = hub
  Processed _ _ _ := True
  Trusted g := g.2
  Fits k := k = n
  good_mono := fun hle h ↦ h.imp_right fun hx ↦ hle.1 hx
  may_mono := fun _ h ↦ h
  processed_mono := fun _ _ ↦ trivial
  trusted_mono := fun hle h ↦ hle.2 h
  good_initial _ _ := Or.inl ⟨rfl, rfl⟩

/-- What a call has achieved when it returns. -/
def Returns (hub : HubId) : InputCall → Facts → Except PyError (List Checkpoint) → Prop
  | .construct _ => fun g r ↦ (∃ checkpoints, r = .ok checkpoints) → g.2
  | .listCheckpoints other => fun g r ↦ ∀ checkpoints, r = .ok checkpoints →
      ∀ c ∈ checkpoints, c.hub = other ∧ other = hub ∧ InitialOr g.1 c.progress
  | _ => fun _ _ ↦ True

theorem Returns.mono {hub : HubId} {call : InputCall} {g g' : Facts}
    {r : Except PyError (List Checkpoint)} (hle : g ≤ g') (h : Returns hub call g r) :
    Returns hub call g' r := by
  cases call with
  | construct partitionIds => exact fun hr ↦ hle.2 (h hr)
  | listCheckpoints _ =>
    intro checkpoints hr c hc
    obtain ⟨hchub, hother, hgood⟩ := h checkpoints hr c hc
    exact ⟨hchub, hother, hgood.imp_right fun hx ↦ hle.1 hx⟩
  | _ => trivial

theorem wp_construct {hub : HubId} {g : Facts} (partitionIds : List ℕ) :
    (InputCall.construct partitionIds).body.wp (progress hub partitionIds.length).contract
      (Returns hub (.construct partitionIds)) g := by
  rw [InputCall.body, Prog.wp_bind]
  refine Progress.wp_init rfl fun g' x hx ↦ ?_
  cases x with
  | error e => exact fun ⟨_, h⟩ ↦ nomatch h
  | ok _ => exact fun _ ↦ hx rfl

theorem wp_body {hub : HubId} {n : ℕ} {g : Facts} (htrusted : g.2) (call : InputCall)
    (hlist : ∀ other, call = .listCheckpoints other → other = hub)
    (hupdate : ∀ c, call = .updateCheckpoint c → c.hub = hub)
    (hconstruct : ∀ partitionIds, call ≠ .construct partitionIds) :
    call.body.wp (progress hub n).contract (Returns hub call) g := by
  cases call with
  | construct partitionIds => exact absurd rfl (hconstruct partitionIds)
  | listOwnership other =>
    rw [InputCall.body, Prog.wp_bind]
    refine Progress.wp_listOwnership fun g' x _ ↦ ?_
    cases x <;> trivial
  | claimOwnership ownerships =>
    rw [InputCall.body, Prog.wp_bind]
    refine Progress.wp_claimOwnership htrusted fun g' x _ ↦ ?_
    cases x <;> trivial
  | listCheckpoints other =>
    obtain rfl := hlist other rfl
    refine Progress.wp_listCheckpoints htrusted fun g' x hx checkpoints hr c hc ↦ ?_
    obtain ⟨hchub, hgood⟩ := hx checkpoints hr c hc
    exact ⟨hchub, rfl, hgood⟩
  | updateCheckpoint c =>
    rw [InputCall.body, Prog.wp_bind]
    refine Progress.wp_updateCheckpoint htrusted (hupdate c rfl) fun g' x _ ↦ ?_
    cases x <;> trivial

/-! ## The document over the runs -/

/-- In a run under `hub` with `n` partitions: the progress in the document is initial or was stored
under the identity that the document was initialized under, which is the run's if it fits. -/
structure Kept (hub : HubId) (n : ℕ) (w : InputWorld) : Prop where
  hub_eq : w.hub = hub
  good : ∀ records, w.document = some records → ∃ origin, w.origin = some origin ∧
    ∀ record ∈ records, InitialOr (storedUnder w origin) record.progress
  fits : ∀ records, w.document = some records → records.length = n → w.origin = some hub

theorem storedUnder_subset {w : InputWorld} {outcome : Outcome} {e : Request} {w' : InputWorld}
    (h : w'.stored = w.storedAfter outcome e) (hub : HubId) :
    storedUnder w hub ⊆ storedUnder w' hub := by
  rintro x ⟨c, hc, hx⟩
  refine ⟨c, ?_, hx⟩
  rw [h]
  cases e with
  | update change records =>
    cases change with
    | checkpoint d =>
      rw [InputWorld.storedAfter]
      split_ifs
      · exact List.mem_cons_of_mem _ hc
      · exact hc
    | _ => exact hc
  | _ => exact hc

theorem origin_of_update {hub : HubId} {n : ℕ} {w : InputWorld} {i : ℕ} {change : Change}
    {records : List Record} {outcome : Outcome} (h : Kept hub n w)
    (hpre : (progress hub n).contract.pre (view w i) (.update change records))
    (heffect : outcome.takesEffect) :
    w.originAfter outcome (.update change records) = some hub := by
  cases change with
  -- a construction makes the document the run's own; any other write relies on its being so
  | initial initial =>
    rw [InputWorld.originAfter, if_pos heffect, h.hub_eq]
  | checkpoint c =>
    rcases hpre.1 with htrusted | ⟨initial, hinitial⟩
    · exact h.hub_eq ▸ htrusted
    · cases hinitial
  | claim a =>
    rcases hpre.1 with htrusted | ⟨initial, hinitial⟩
    · exact h.hub_eq ▸ htrusted
    · cases hinitial

theorem originAfter_eq_some {w : InputWorld} {outcome : Outcome} {e : Request}
    (h : w.origin = some w.hub) : w.originAfter outcome e = some w.hub := by
  cases e with
  | update change records =>
    cases change with
    | initial initial =>
      rw [InputWorld.originAfter]
      split_ifs
      · rfl
      · exact h
    | _ => exact h
  | _ => exact h

theorem serve_update_of_not_takesEffect {w w' : InputWorld} {i : ℕ} {change : Change}
    {records : List Record} {outcome : Outcome} {r : Except PyError Unit}
    (heffect : ¬outcome.takesEffect)
    (hserve : w.serve i (.update change records) outcome = some (r, w')) : w' = w := by
  obtain ⟨-, rfl⟩ := Prod.mk.inj (Option.some.inj hserve)
  cases change <;>
    simp [Outcome.documentAfter, InputWorld.originAfter, InputWorld.storedAfter, heffect]

theorem Kept.serve {hub : HubId} {n : ℕ} {w w' : InputWorld} {i : ℕ} {e : Request}
    {outcome : Outcome} {r : Answer e} (h : Kept hub n w)
    (hpre : (progress hub n).contract.pre (view w i) e) (hle : view w i ≤ view w' i)
    (hserve : w.serve i e outcome = some (r, w')) : Kept hub n w' := by
  cases e with
  | update change records =>
    by_cases heffect : outcome.takesEffect
    · obtain ⟨rfl, rfl⟩ := Prod.mk.inj (Option.some.inj hserve)
      have horigin := origin_of_update h hpre heffect
      refine ⟨h.hub_eq, fun records' hrecords ↦ ⟨hub, horigin, ?_⟩, fun _ _ _ ↦ horigin⟩
      rw [Outcome.documentAfter, if_pos heffect] at hrecords
      obtain rfl := Option.some.inj hrecords
      obtain rfl := h.hub_eq
      refine Progress.good_of_pre hpre hle ?_
      rintro c rfl hc
      exact Or.inr ⟨c, by rw [InputWorld.storedAfter, if_pos heffect]; exact List.mem_cons_self, hc,
        rfl⟩
    · exact serve_update_of_not_takesEffect heffect hserve ▸ h
  | delete =>
    obtain ⟨rfl, rfl⟩ := Prod.mk.inj (Option.some.inj hserve)
    have hsame : ∀ {records}, outcome.documentAfter w.document .delete = some records →
        w.document = some records := by
      intro records hrecords
      rw [Outcome.documentAfter] at hrecords
      split_ifs at hrecords
      exact hrecords
    exact ⟨h.hub_eq, fun records hrecords ↦ h.good records (hsame hrecords),
      fun records hrecords ↦ h.fits records (hsame hrecords)⟩
  | get =>
    obtain ⟨rfl, rfl⟩ := Prod.mk.inj (Option.some.inj hserve)
    exact h
  | stamp =>
    obtain ⟨rfl, rfl⟩ := Prod.mk.inj (Option.some.inj hserve)
    exact h
  | selectElements p event =>
    obtain ⟨rfl, rfl⟩ := Prod.mk.inj (Option.some.inj hserve)
    exact h

theorem serve_post {hub : HubId} {n : ℕ} {w w' : InputWorld} {i : ℕ} {e : Request}
    {outcome : Outcome} {r : Answer e} (h : Kept hub n w)
    (hpre : (progress hub n).contract.pre (view w i) e)
    (hserve : w.serve i e outcome = some (r, w')) :
    Kept hub n w' ∧ (progress hub n).contract.post (view w i) e r (view w' i) ∧
      view w i ≤ view w' i := by
  have hle : view w i ≤ view w' i := by
    obtain ⟨rfl, rfl⟩ := Prod.mk.inj (Option.some.inj hserve)
    exact ⟨storedUnder_subset rfl w.hub, originAfter_eq_some⟩
  refine ⟨h.serve hpre hle hserve, ?_, hle⟩
  obtain ⟨rfl, rfl⟩ := Prod.mk.inj (Option.some.inj hserve)
  cases e with
  | get =>
    refine ⟨hle, fun records hr ↦ ?_⟩
    have hrecords := Outcome.eq_of_answer_get hr
    obtain rfl := h.hub_eq
    refine ⟨h.fits records hrecords, fun htrusted ↦ ?_⟩
    -- what is in the document was stored under its origin, which is the run's identity
    obtain ⟨origin, horigin, hgood⟩ := h.good records hrecords
    obtain rfl : w.hub = origin := Option.some.inj (htrusted.symm.trans horigin)
    exact hgood
  | update change records =>
    refine ⟨hle, fun hr ↦ ?_⟩
    have horigin := origin_of_update h hpre (Outcome.takesEffect_of_unit hr)
    rw [← h.hub_eq] at horigin
    exact horigin
  | delete => exact hle
  | stamp => exact hle
  | selectElements p event => exact ⟨hle, fun _ ↦ trivial⟩

/-! ## Runs -/

/-- In the present run, every call is on its way to what it is to return. -/
def Inv (p : InputPool) : Prop :=
  ∃ hub n, Pool.Sound (progress hub n).contract view (Returns hub) (Kept hub n) p

theorem Inv.faithful {p : InputPool} (h : p.Inv) : p.Faithful := by
  obtain ⟨hub, n, hsound⟩ := h
  intro i other checkpoints hthread c hc
  obtain ⟨hchub, rfl, hgood⟩ := hsound.threads hthread checkpoints rfl c hc
  obtain rfl := hsound.world.hub_eq
  refine ⟨hchub, hgood.imp id ?_⟩
  rintro ⟨d, hd, hdhub, hprogress⟩
  exact Checkpoint.eq_of_progress_eq (hdhub.trans hchub.symm) hprogress ▸ hd

/-- A constructed store is one whose document was initialized under the identity of the run. -/
theorem trusted_of_constructed {p : InputPool} {hub : HubId} {n : ℕ}
    (h : Pool.Sound (progress hub n).contract view (Returns hub) (Kept hub n) p)
    (hconstructed : p.Constructed) (i : ℕ) : (view p.world i).2 := by
  obtain ⟨t, ht, hreturned⟩ := (Option.any_eq_true _ _).mp hconstructed
  rw [List.head?_eq_getElem?] at ht
  match t, hreturned with
  | ⟨.construct partitionIds, .pure checkpoints⟩, _ => exact h.threads ht ⟨checkpoints, rfl⟩

theorem Inv.step {p q : InputPool} {a : InputAction} (h : p.Inv) (huses : p.Uses a)
    (hsame : p.SameIdentity a) (hstep : p.step a = some q) : q.Inv := by
  obtain ⟨hub, n, hsound⟩ := h
  cases a with
  | begin hub' partitionIds =>
    obtain rfl := Option.some.inj hstep
    -- the new run takes the document over; whether it trusts it is what `SameIdentity` says
    refine ⟨hub', partitionIds.length, ⟨rfl, hsound.world.good, hsame⟩, fun {i t} ht ↦ ?_⟩
    rw [List.getElem?_singleton] at ht
    split_ifs at ht
    obtain rfl := Option.some.inj ht
    exact wp_construct partitionIds
  | run a =>
    refine ⟨hub, n, ?_⟩
    cases a with
    | start call =>
      obtain rfl := Option.some.inj hstep
      obtain ⟨hconstructed, hcall⟩ := huses
      have hhub := hsound.world.hub_eq
      refine Pool.Sound.start hsound (wp_body (trusted_of_constructed hsound hconstructed _) call
        ?_ ?_ ?_)
      · rintro other rfl
        exact hcall.trans hhub
      · rintro c rfl
        exact hcall.trans hhub
      · rintro partitionIds rfl
        exact hcall
    | act i outcome =>
      have hstep : Pool.step InputCall.body InputWorld.serve p (.act i outcome) = some q := hstep
      refine Pool.Sound.act (progress hub n).contract_stable Returns.mono hsound ?_ hstep
      intro call e next r w _ hpre hserve
      obtain ⟨hkept, hpost, hle⟩ := serve_post hsound.world hpre hserve
      exact ⟨hkept, hpost, fun _ _ ↦ hle⟩

/-- **No foreign offset, where the document is the identity's own.** In every sequence of runs, with
any edits between them and any failures in them, in which a run that finds a document with as many
records as it has partitions has the identity under which that document was initialized: every
offset that is listed under an identity is the initial one, or was stored under that identity. -/
theorem faithful_of_sameIdentity {s t : InputPool} {as : List InputAction}
    (hthreads : s.threads = []) (hdocument : s.world.document = none)
    (hrun : Run step (fun p a ↦ p.Uses a ∧ p.SameIdentity a) s as t) : t.Faithful := by
  have hinit : s.Inv := by
    refine ⟨s.world.hub, 0, ⟨rfl, fun records hrecords ↦ ?_, fun records hrecords ↦ ?_⟩,
      fun {i t} ht ↦ ?_⟩
    · rw [hdocument] at hrecords
      cases hrecords
    · rw [hdocument] at hrecords
      cases hrecords
    · rw [hthreads] at ht
      cases ht
  exact (hrun.invariant (fun h hok hstep ↦ Inv.step h hok.1 hok.2 hstep) hinit).faithful

/-! ## Another event hub's offset

Two event hubs, and an input that is moved from one to the other. -/

instance (p : InputPool) : (a : InputAction) → Decidable (p.Uses a)
  | .begin _ _ => isTrue trivial
  | .run (.act _ _) => isTrue trivial
  | .run (.start (.construct _)) => isFalse fun h ↦ h.2
  | .run (.start (.listOwnership hub)) =>
    inferInstanceAs (Decidable (p.Constructed ∧ hub = p.world.hub))
  | .run (.start (.claimOwnership _)) => inferInstanceAs (Decidable (p.Constructed ∧ True))
  | .run (.start (.listCheckpoints hub)) =>
    inferInstanceAs (Decidable (p.Constructed ∧ hub = p.world.hub))
  | .run (.start (.updateCheckpoint c)) =>
    inferInstanceAs (Decidable (p.Constructed ∧ c.hub = p.world.hub))

instance (p : InputPool) : (a : InputAction) → Decidable (p.SameIdentity a)
  | .begin hub partitionIds => inferInstanceAs (Decidable (∀ records ∈ p.world.document,
      records.length = partitionIds.length → p.world.origin = some hub))
  | .run _ => isTrue trivial

def hubA : HubId := ⟨"contoso.servicebus.windows.net", "incidents", "$Default"⟩

def hubB : HubId := ⟨"contoso.servicebus.windows.net", "alerts", "$Default"⟩

/-- An input that has never run. -/
def newInput : InputPool := ⟨⟨none, hubA, none, []⟩, []⟩

/-- A request of call `i` that goes well. -/
def good (i : ℕ) : InputAction := .run (.act i ⟨("e0", 0), none, true⟩)

/-- A run on one event hub with one partition, up to a checkpoint. -/
def firstRun : List InputAction :=
  [.begin hubA [0], good 0, good 0, good 0,
    .run (.start (.updateCheckpoint ⟨hubA, 0, "100", 7⟩)), good 1, good 1]

/-- Then a run on another event hub, with one partition more. -/
def ontoLargerHub : List InputAction :=
  firstRun ++ [.begin hubB [0, 1], good 0, good 0, good 0, good 0, good 0, good 0, good 0,
    .run (.start (.listCheckpoints hubB)), good 1]

/-- Or on another event hub with one partition. -/
def ontoEqualHub : List InputAction :=
  firstRun ++ [.begin hubB [0], good 0, good 0, .run (.start (.listCheckpoints hubB)), good 1]

theorem faithful_of_sameIdentity_ontoLargerHub :
    ∃ t, Run.exec step newInput ontoLargerHub = some t ∧
      t.threads[1]? = some ⟨.listCheckpoints hubB, .pure [⟨hubB, 0, "", 0⟩, ⟨hubB, 1, "", 0⟩]⟩ ∧
      t.Faithful :=
  ⟨_, rfl, rfl, faithful_of_sameIdentity (s := newInput) rfl rfl
    (Run.of_exec_guarded ontoLargerHub rfl)⟩

/-- The new run is told to start after an offset of the old event hub. -/
theorem listed_of_other_hub :
    ¬∀ (s t : InputPool) (as : List InputAction), s.threads = [] → s.world.document = none →
      Run step Uses s as t → t.Faithful := by
  intro h
  obtain ⟨t, ht, hlisted, hstored⟩ : ∃ t,
      Run.exec (Run.guarded step Uses) newInput ontoEqualHub = some t ∧
      t.threads[1]? = some ⟨.listCheckpoints hubB, .pure [⟨hubB, 0, "100", 7⟩]⟩ ∧
      t.world.stored = [⟨hubA, 0, "100", 7⟩] := ⟨_, rfl, rfl, rfl⟩
  obtain ⟨-, hgood⟩ := h newInput t ontoEqualHub rfl rfl (Run.of_exec_guarded _ ht) 1 hubB _ hlisted
    _ List.mem_cons_self
  rw [hstored] at hgood
  exact absurd hgood (by decide)

end InputPool

end MsSecurity
