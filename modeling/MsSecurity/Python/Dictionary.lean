import Mathlib.Data.List.Induction
import Mathlib.Data.List.Nodup
import Mathlib.Tactic.Common

/-!
# Dictionaries that are assigned to

A dictionary is the list of its items in the order of insertion. Assigning to a key that is there
replaces its value in place, and a new key comes last.
-/

namespace MsSecurity

variable {κ α β : Type}

/-- `d[key] = value`. -/
def setKey [DecidableEq κ] (d : List (κ × α)) (key : κ) (value : α) : List (κ × α) :=
  if key ∈ d.map Prod.fst then d.map fun p ↦ if p.1 = key then (key, value) else p
  else d ++ [(key, value)]

/-- `dict(items)`, where a later item of a key replaces an earlier one. -/
def dictOf [DecidableEq κ] (items : List (κ × α)) : List (κ × α) :=
  items.foldl (fun d p ↦ setKey d p.1 p.2) []

section Lookup

variable [BEq κ] [LawfulBEq κ] {d : List (κ × α)} {key : κ} {value : α}

theorem lookup_eq_none_iff_notMem : d.lookup key = none ↔ key ∉ d.map Prod.fst := by
  rw [List.lookup_eq_none_iff, List.mem_map]
  constructor
  · rintro h ⟨p, hp, rfl⟩
    exact absurd (h p hp) (by simp)
  · exact fun h p hp ↦ bne_iff_ne.mpr fun hkey ↦ h ⟨p, hp, hkey.symm⟩

theorem mem_iff_lookup (h : (d.map Prod.fst).Nodup) : (key, value) ∈ d ↔ d.lookup key = value := by
  induction d with
  | nil => exact iff_of_false List.not_mem_nil (Option.some_ne_none value).symm
  | cons p d ih =>
    obtain ⟨k, v⟩ := p
    rw [List.map_cons, List.nodup_cons] at h
    rw [List.mem_cons, ih h.2, List.lookup_cons]
    by_cases hk : key = k
    · subst hk
      have hnone : d.lookup key = none := lookup_eq_none_iff_notMem.mpr h.1
      rw [beq_self_eq_true, hnone, Prod.mk.injEq, or_iff_left (Option.some_ne_none value).symm,
        and_iff_right rfl, Option.some.injEq, eq_comm]
    · rw [beq_false_of_ne hk]
      exact or_iff_right fun hp ↦ hk (Prod.mk.inj hp).1

theorem lookup_map (f : κ → α → β) (d : List (κ × α)) (key : κ) :
    (d.map fun p ↦ (p.1, f p.1 p.2)).lookup key = (d.lookup key).map (f key) := by
  induction d with
  | nil => rfl
  | cons p d ih =>
    obtain ⟨k, v⟩ := p
    rw [List.map_cons, List.lookup_cons, List.lookup_cons, ih]
    by_cases hk : key = k
    · rw [hk, beq_self_eq_true]
      rfl
    · rw [beq_false_of_ne hk]

theorem lookup_filter (f : κ → Bool) (d : List (κ × α)) (key : κ) :
    (d.filter fun p ↦ f p.1).lookup key = if f key then d.lookup key else none := by
  induction d with
  | nil => exact (ite_self none).symm
  | cons p d ih =>
    obtain ⟨k, v⟩ := p
    rw [List.filter_cons, List.lookup_cons]
    by_cases hk : key = k
    · subst hk
      by_cases hf : f key = true
      · rw [if_pos hf, if_pos hf, List.lookup_cons, beq_self_eq_true]
      · rw [if_neg hf, ih, if_neg hf, if_neg hf]
    · rw [beq_false_of_ne hk]
      by_cases hf : f k = true
      · rw [if_pos hf, List.lookup_cons, beq_false_of_ne hk]
        exact ih
      · rw [if_neg hf]
        exact ih

end Lookup

section Assignment

variable [DecidableEq κ] (d : List (κ × α)) (key : κ) (value : α)

@[simp] theorem setKey_nil : setKey [] key value = [(key, value)] := rfl

theorem setKey_of_mem {d : List (κ × α)} {key : κ} (h : key ∈ d.map Prod.fst) (value : α) :
    setKey d key value = d.map fun p ↦ (p.1, if p.1 = key then value else p.2) := by
  rw [setKey, if_pos h]
  refine List.map_congr_left fun p _ ↦ ?_
  split_ifs with hp
  · rw [hp]
  · rfl

/-- **Assignment.** The key has the value, and the other keys are as before. -/
theorem lookup_setKey [BEq κ] [LawfulBEq κ] (k : κ) :
    (setKey d key value).lookup k = if k = key then some value else d.lookup k := by
  by_cases hmem : key ∈ d.map Prod.fst
  · rw [setKey_of_mem hmem, lookup_map fun k' v ↦ if k' = key then value else v]
    split_ifs with hk
    · subst hk
      obtain ⟨v, hv⟩ := Option.ne_none_iff_exists'.mp
        (mt lookup_eq_none_iff_notMem.mp (not_not.mpr hmem))
      rw [hv, Option.map_some]
    · rw [Option.map_id']
  · rw [setKey, if_neg hmem, List.lookup_append, List.lookup_cons]
    split_ifs with hk
    · rw [hk, lookup_eq_none_iff_notMem.mpr hmem, Option.none_or, beq_self_eq_true]
    · rw [beq_false_of_ne hk]
      exact Option.or_none

theorem mem_keys_setKey {k : κ} :
    k ∈ (setKey d key value).map Prod.fst ↔ k = key ∨ k ∈ d.map Prod.fst := by
  by_cases hmem : key ∈ d.map Prod.fst
  · rw [setKey_of_mem hmem, List.map_map]
    exact (or_iff_right_of_imp fun hk ↦ hk ▸ hmem).symm
  · rw [setKey, if_neg hmem, List.map_append, List.mem_append, or_comm]
    exact or_congr_left List.mem_singleton

/-- Of several assignments the last one to a key counts. -/
theorem lookup_foldl_setKey [BEq κ] [LawfulBEq κ] (items : List (κ × α)) (k : κ) :
    (items.foldl (fun d p ↦ setKey d p.1 p.2) d).lookup k =
      (items.reverse.lookup k).or (d.lookup k) := by
  induction items generalizing d with
  | nil => rfl
  | cons p items ih =>
    obtain ⟨key, value⟩ := p
    rw [List.foldl_cons, ih, lookup_setKey, List.reverse_cons, List.lookup_append, Option.or_assoc,
      List.lookup_cons]
    split_ifs with hk
    · rw [hk, beq_self_eq_true, Option.some_or]
    · rw [beq_false_of_ne hk]
      rfl

theorem nodup_setKey {d : List (κ × α)} (h : (d.map Prod.fst).Nodup) :
    ((setKey d key value).map Prod.fst).Nodup := by
  by_cases hmem : key ∈ d.map Prod.fst
  · rw [setKey_of_mem hmem, List.map_map]
    exact h
  · rw [setKey, if_neg hmem, List.map_append]
    exact h.append (List.nodup_singleton key) (List.disjoint_singleton.mpr hmem)

theorem dictOf_eq_self {d : List (κ × α)} (h : (d.map Prod.fst).Nodup) : dictOf d = d := by
  induction d using List.reverseRecOn with
  | nil => rfl
  | append_singleton d p ih =>
    rw [List.map_append, List.nodup_append] at h
    have hnew : p.1 ∉ d.map Prod.fst := fun hmem ↦ h.2.2 _ hmem _ List.mem_cons_self rfl
    rw [dictOf, List.foldl_append, ← dictOf, ih h.1]
    exact if_neg hnew

end Assignment

end MsSecurity
