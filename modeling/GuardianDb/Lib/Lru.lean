/-
Caches that evict the least recently used entry.

The entries stand in the order of their last use, the latest first. What a cache holds
under a key is `peek`; every operation either keeps it, changes it at one key, or loses
entries.

  * `peek_modify`, `peek_pop` — using and removing an entry.
  * `peek_put_self`, `peek_of_put` — what is found after an insertion.
-/
import Mathlib.Data.List.Basic

/-- Entries by key, the most recently used first, and how many there may be. -/
structure Lru (κ ν : Type) where
  entries : List (κ × ν)
  cap : Nat
  deriving DecidableEq, Repr

namespace Lru

variable {κ ν : Type} [DecidableEq κ]

def empty (cap : Nat) : Lru κ ν := ⟨[], cap⟩

/-- What is held under a key, without using it. -/
def peek (c : Lru κ ν) (k : κ) : Option ν := c.entries.lookup k

/-- Remove the entry of a key. -/
def pop (c : Lru κ ν) (k : κ) : Lru κ ν := { c with entries := c.entries.filter fun e => e.1 ≠ k }

/-- Use the entry of a key, and change it. -/
def modify (c : Lru κ ν) (k : κ) (f : ν → ν) : Lru κ ν :=
  match c.peek k with
  | none => c
  | some v => { c with entries := (k, f v) :: (c.pop k).entries }

/-- Insert an entry, or replace it. A new entry in a full cache evicts the last one. -/
def put (c : Lru κ ν) (k : κ) (v : ν) : Lru κ ν :=
  if (c.peek k).isSome then { c with entries := (k, v) :: (c.pop k).entries }
  else if c.entries.length < c.cap then { c with entries := (k, v) :: c.entries }
  else { c with entries := (k, v) :: c.entries.dropLast }

theorem peek_cons (k k' : κ) (v : ν) (entries : List (κ × ν)) (cap : Nat) :
    peek ⟨(k, v) :: entries, cap⟩ k' = if k' = k then some v else peek ⟨entries, cap⟩ k' := by
  unfold peek
  rw [List.lookup_cons]
  by_cases h : k' = k
  · rw [if_pos h, beq_iff_eq.mpr h]
  · rw [if_neg h, beq_eq_false_iff_ne.mpr h]

/-- **Removing a key** leaves the others. -/
theorem peek_pop (c : Lru κ ν) (k k' : κ) :
    (c.pop k).peek k' = if k' = k then none else c.peek k' := by
  obtain ⟨entries, cap⟩ := c
  induction entries with
  | nil => simp [pop, peek]
  | cons e entries ih =>
    obtain ⟨key, v⟩ := e
    by_cases he : key = k
    · simp_all [pop, peek_cons]
    · have hpop : (pop ⟨(key, v) :: entries, cap⟩ k : Lru κ ν) =
          ⟨(key, v) :: (pop ⟨entries, cap⟩ k).entries, cap⟩ := by
        simp [pop, he]
      rw [hpop, peek_cons, peek_cons]
      by_cases hk : k' = key
      · rw [if_pos hk, if_pos hk, if_neg (hk ▸ he)]
      · rw [if_neg hk, if_neg hk]
        exact ih

/-- **Using a key** changes what it holds and nothing else. -/
theorem peek_modify (c : Lru κ ν) (k k' : κ) (f : ν → ν) :
    (c.modify k f).peek k' = if k' = k then (c.peek k).map f else c.peek k' := by
  unfold modify
  cases hk : c.peek k with
  | none => simp_all
  | some v =>
    rw [peek_cons]
    by_cases h : k' = k
    · rw [if_pos h, if_pos h]
      rfl
    · rw [if_neg h, if_neg h]
      have hpop := peek_pop c k k'
      rw [if_neg h] at hpop
      exact hpop

/-- **What was inserted is found.** -/
theorem peek_put_self (c : Lru κ ν) (k : κ) (v : ν) : (c.put k v).peek k = some v := by
  unfold put
  split
  · rw [peek_cons, if_pos rfl]
  · split
    · rw [peek_cons, if_pos rfl]
    · rw [peek_cons, if_pos rfl]

theorem lookup_dropLast {k : κ} {v : ν} : ∀ {entries : List (κ × ν)},
    entries.dropLast.lookup k = some v → entries.lookup k = some v
  | [], h => h
  | [_], h => by cases h
  | e :: e' :: entries, h => by
      rw [List.dropLast_cons_cons, List.lookup_cons] at h
      rw [List.lookup_cons]
      cases hk : k == e.1 with
      | true =>
        rw [hk] at h
        exact h
      | false =>
        rw [hk] at h
        exact lookup_dropLast h

/-- **What else is found after an insertion was there before.** -/
theorem peek_of_put {c : Lru κ ν} {k k' : κ} {v w : ν} (hne : k' ≠ k)
    (h : (c.put k v).peek k' = some w) : c.peek k' = some w := by
  unfold put at h
  split at h
  · rw [peek_cons, if_neg hne] at h
    have hpop := peek_pop c k k'
    rw [if_neg hne] at hpop
    exact hpop.symm.trans h
  · split at h
    · rw [peek_cons, if_neg hne] at h
      exact h
    · rw [peek_cons, if_neg hne] at h
      exact lookup_dropLast h

end Lru
