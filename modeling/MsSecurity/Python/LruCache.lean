import Mathlib.Data.List.Nodup
import Mathlib.Tactic.Common

/-!
# Functions with a least-recently-used cache

`functools.lru_cache` keeps the values of the last `maxsize` keys a function was called with. What
the function reads when it runs is no part of the key, so a call returns either a value of what can
be read now or one of what was read when the function last ran for that key. Which of the two it is
depends on the keys alone: the function runs exactly if the key is not one of the `maxsize` used
last (`Memo.ok_of_call`).
-/

namespace MsSecurity

variable {κ ω ν ε : Type} [DecidableEq κ]

/-- A function and its cache. -/
structure Memo (κ ω ν : Type) where
  /-- The values that are kept, the one used last first. -/
  entries : List (κ × ν)
  /-- The calls that returned, the latest first, each with what the function read if it ran. No call
  looks at it. -/
  past : List (κ × Option ω)

namespace Memo

/-- The cache before the first call. -/
def empty : Memo κ ω ν := ⟨[], []⟩

/-- A call: a hit moves the entry to the front, and a value that had to be computed pushes out the
last entry. An exception is not kept. -/
def call (maxsize : ℕ) (f : ω → Except ε ν) (read : Except ε ω) (key : κ) (memo : Memo κ ω ν) :
    Except ε ν × Memo κ ω ν :=
  match memo.entries.lookup key with
  | some value =>
    (.ok value, ⟨(key, value) :: memo.entries.filter (·.1 ≠ key), (key, none) :: memo.past⟩)
  | none => match read with
    | .error e => (.error e, memo)
    | .ok w => match f w with
      | .error e => (.error e, memo)
      | .ok value =>
        (.ok value, ⟨((key, value) :: memo.entries).take maxsize, (key, some w) :: memo.past⟩)

/-! ## What the calls say -/

/-- The keys of the calls, each once, the one used last first. -/
def recentKeys : List (κ × Option ω) → List κ
  | [] => []
  | (key, _) :: past => key :: (recentKeys past).filter (· ≠ key)

/-- The calls that returned once another call was made: it did if its key is one of those used last,
or the function could run. -/
def recorded (maxsize : ℕ) (f : ω → Except ε ν) (read : Except ε ω) (key : κ)
    (past : List (κ × Option ω)) : List (κ × Option ω) :=
  if key ∈ (recentKeys past).take maxsize then (key, none) :: past
  else match read >>= fun w ↦ f w >>= fun _ ↦ .ok w with
    | .ok w => (key, some w) :: past
    | .error _ => past

/-- What the function read when it last ran for a key. -/
def lastRead (key : κ) (past : List (κ × Option ω)) : Option ω :=
  past.findSome? fun entry ↦ if entry.1 = key then entry.2 else none

theorem lastRead_cons_none (key key' : κ) (past : List (κ × Option ω)) :
    lastRead key ((key', none) :: past) = lastRead key past := by
  rw [lastRead, List.findSome?_cons]
  dsimp only
  rw [ite_self]
  rfl

theorem lastRead_cons_self (key : κ) (w : ω) (past : List (κ × Option ω)) :
    lastRead key ((key, some w) :: past) = some w := by
  rw [lastRead, List.findSome?_cons]
  dsimp only
  rw [if_pos rfl]

theorem lastRead_cons_of_ne {key key' : κ} (h : key' ≠ key) (read : Option ω)
    (past : List (κ × Option ω)) : lastRead key ((key', read) :: past) = lastRead key past := by
  rw [lastRead, List.findSome?_cons]
  dsimp only
  rw [if_neg h]
  rfl

theorem nodup_recentKeys (past : List (κ × Option ω)) : (recentKeys past).Nodup := by
  induction past with
  | nil => exact List.nodup_nil
  | cons entry past ih =>
    refine List.nodup_cons.mpr ⟨fun hmem ↦ ?_, ih.filter _⟩
    exact absurd rfl (of_decide_eq_true (List.mem_filter.mp hmem).2)

theorem take_filter_of_notMem {keys : List κ} {key : κ} {n : ℕ} (h : key ∉ keys.take n) :
    (keys.filter (· ≠ key)).take n = keys.take n := by
  induction keys generalizing n with
  | nil => rfl
  | cons head keys ih =>
    cases n with
    | zero => rfl
    | succ n =>
      rw [List.take_succ_cons, List.mem_cons, not_or] at h
      rw [List.filter_cons_of_pos (by simpa using Ne.symm h.1), List.take_succ_cons, ih h.2,
        List.take_succ_cons]

theorem take_filter_of_mem {keys : List κ} (hnodup : keys.Nodup) {key : κ} {n : ℕ}
    (h : key ∈ keys.take (n + 1)) :
    (keys.filter (· ≠ key)).take n = (keys.take (n + 1)).filter (· ≠ key) := by
  induction keys generalizing n with
  | nil => exact absurd h List.not_mem_nil
  | cons head keys ih =>
    obtain ⟨hhead, hnodup⟩ := List.nodup_cons.mp hnodup
    rw [List.take_succ_cons, List.mem_cons] at h
    rcases eq_or_ne key head with rfl | hne
    · have hself {l : List κ} (hl : key ∉ l) : l.filter (· ≠ key) = l :=
        List.filter_eq_self.mpr fun a ha ↦ decide_eq_true (ne_of_mem_of_not_mem ha hl)
      rw [List.take_succ_cons, List.filter_cons_of_neg (by simp), List.filter_cons_of_neg (by simp),
        hself hhead, hself fun hmem ↦ hhead (List.mem_of_mem_take hmem)]
    · cases n with
      | zero => exact absurd (h.resolve_left hne) (by simp)
      | succ n =>
        rw [List.take_succ_cons, List.filter_cons_of_pos (by simpa using hne.symm),
          List.filter_cons_of_pos (by simpa using hne.symm), List.take_succ_cons,
          ih hnodup (h.resolve_left hne)]

/-! ## What the cache holds -/

/-- The cache holds the keys used last, each with a value of what was last read for it. -/
structure Valid (maxsize : ℕ) (f : ω → Except ε ν) (memo : Memo κ ω ν) : Prop where
  keys_eq : memo.entries.map Prod.fst = (recentKeys memo.past).take maxsize
  exists_read : ∀ key value, (key, value) ∈ memo.entries →
    ∃ w, lastRead key memo.past = some w ∧ f w = .ok value

variable {maxsize : ℕ} {f : ω → Except ε ν} {memo : Memo κ ω ν}

theorem valid_empty : Valid maxsize f (empty : Memo κ ω ν) where
  keys_eq := List.take_nil.symm
  exists_read _ _ h := absurd h List.not_mem_nil

theorem Valid.lookup_eq_none_iff (h : Valid maxsize f memo) {key : κ} :
    memo.entries.lookup key = none ↔ key ∉ (recentKeys memo.past).take maxsize := by
  rw [← h.keys_eq, List.lookup_eq_none_iff, List.mem_map]
  constructor
  · rintro hall ⟨entry, hentry, rfl⟩
    exact absurd rfl (bne_iff_ne.mp (hall entry hentry))
  · exact fun hnot entry hentry ↦ bne_iff_ne.mpr fun hkey ↦ hnot ⟨entry, hentry, hkey.symm⟩

theorem mem_of_lookup_eq_some {entries : List (κ × ν)} {key : κ} {value : ν}
    (h : entries.lookup key = some value) : (key, value) ∈ entries := by
  obtain ⟨before, after, rfl, -⟩ := List.lookup_eq_some_iff.mp h
  exact List.mem_append_right _ List.mem_cons_self

/-- A hit keeps the entries and what was read for them. -/
theorem Valid.hit (h : Valid (maxsize + 1) f memo) {key : κ} {value : ν}
    (hlookup : memo.entries.lookup key = some value) : Valid (maxsize + 1) f
      ⟨(key, value) :: memo.entries.filter (·.1 ≠ key), (key, none) :: memo.past⟩ where
  keys_eq := by
    have hmem : key ∈ (recentKeys memo.past).take (maxsize + 1) := by
      by_contra hnot
      rw [h.lookup_eq_none_iff.mpr hnot] at hlookup
      cases hlookup
    change key :: (memo.entries.filter (·.1 ≠ key)).map Prod.fst = _
    rw [recentKeys, List.take_succ_cons, take_filter_of_mem (nodup_recentKeys _) hmem, ← h.keys_eq,
      List.filter_map]
    rfl
  exists_read key' value' hentry := by
    rw [lastRead_cons_none]
    refine h.exists_read key' value' ?_
    rcases List.mem_cons.mp hentry with heq | hentry
    · rw [heq]
      exact mem_of_lookup_eq_some hlookup
    · exact List.mem_of_mem_filter hentry

/-- A value that had to be computed is one of what was read for it now. -/
theorem Valid.miss (h : Valid (maxsize + 1) f memo) {key : κ} {w : ω} {value : ν}
    (hlookup : memo.entries.lookup key = none) (hf : f w = .ok value) : Valid (maxsize + 1) f
      ⟨((key, value) :: memo.entries).take (maxsize + 1), (key, some w) :: memo.past⟩ where
  keys_eq := by
    have hnot := h.lookup_eq_none_iff.mp hlookup
    have hnot' : key ∉ (recentKeys memo.past).take maxsize := fun hmem ↦
      hnot (List.take_subset_take_left _ (Nat.le_succ _) hmem)
    change (((key, value) :: memo.entries).take (maxsize + 1)).map Prod.fst = _
    rw [recentKeys, List.take_succ_cons, List.map_cons, List.map_take, h.keys_eq, List.take_take,
      Nat.min_eq_left (Nat.le_succ _), List.take_succ_cons, take_filter_of_notMem hnot']
  exists_read key' value' hentry := by
    rcases List.mem_cons.mp (List.mem_of_mem_take hentry) with heq | hentry
    · obtain ⟨rfl, rfl⟩ := Prod.mk.inj heq
      exact ⟨w, lastRead_cons_self key' w memo.past, hf⟩
    · obtain ⟨w', hread, hf'⟩ := h.exists_read key' value' hentry
      have hne : key ≠ key' := by
        rintro rfl
        have hnot := List.lookup_eq_none_iff.mp hlookup (key, value') hentry
        exact absurd rfl (bne_iff_ne.mp hnot)
      exact ⟨w', (lastRead_cons_of_ne hne _ _).trans hread, hf'⟩

theorem Valid.call (h : Valid (maxsize + 1) f memo) (read : Except ε ω) (key : κ) :
    Valid (maxsize + 1) f (memo.call (maxsize + 1) f read key).2 := by
  unfold Memo.call
  cases hlookup : memo.entries.lookup key with
  | some value => exact h.hit hlookup
  | none => cases read with
    | error e => exact h
    | ok w =>
      cases hf : f w with
      | error e =>
        simp only [hf]
        exact h
      | ok value =>
        simp only [hf]
        exact h.miss hlookup hf

/-- Which calls returned is a matter of the calls alone. -/
theorem Valid.past_call (h : Valid maxsize f memo) (read : Except ε ω) (key : κ) :
    (memo.call maxsize f read key).2.past = recorded maxsize f read key memo.past := by
  unfold Memo.call recorded
  cases hlookup : memo.entries.lookup key with
  | some value =>
    have hmem : key ∈ (recentKeys memo.past).take maxsize := by
      by_contra hnot
      rw [h.lookup_eq_none_iff.mpr hnot] at hlookup
      cases hlookup
    rw [if_pos hmem]
  | none =>
    rw [if_neg (h.lookup_eq_none_iff.mp hlookup)]
    cases read with
    | error e => rfl
    | ok w => cases hf : f w <;> simp [hf, bind, Except.bind]

/-- **What a call returns.** It is a value of what was last read for the key, if the key is one of
those used last, and of what can be read now otherwise. -/
theorem Valid.ok_of_call (h : Valid maxsize f memo) {read : Except ε ω} {key : κ} {value : ν}
    (hcall : (memo.call maxsize f read key).1 = .ok value) :
    if key ∈ (recentKeys memo.past).take maxsize then
      ∃ w, lastRead key memo.past = some w ∧ f w = .ok value
    else ∃ w, read = .ok w ∧ f w = .ok value := by
  unfold Memo.call at hcall
  cases hlookup : memo.entries.lookup key with
  | some value' =>
    rw [hlookup] at hcall
    obtain rfl := Except.ok.inj hcall
    have hmem : key ∈ (recentKeys memo.past).take maxsize := by
      by_contra hnot
      rw [h.lookup_eq_none_iff.mpr hnot] at hlookup
      cases hlookup
    rw [if_pos hmem]
    exact h.exists_read key value' (mem_of_lookup_eq_some hlookup)
  | none =>
    rw [hlookup] at hcall
    rw [if_neg (h.lookup_eq_none_iff.mp hlookup)]
    cases read with
    | error e => cases hcall
    | ok w =>
      refine ⟨w, rfl, ?_⟩
      cases hf : f w with
      | error e =>
        simp only [hf] at hcall
        cases hcall
      | ok value' =>
        simp only [hf] at hcall
        exact congrArg _ (Except.ok.inj hcall)

end Memo

end MsSecurity
