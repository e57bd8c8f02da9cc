/-
Lists of tasks and what each of them claims.

Tasks of a system are kept in the order of their arrival; a task moves by replacing
its entry. Each may claim one thing, and claims are distinct when no two tasks claim
the same.

  * `claims_set` — a move exchanges what the task claims.
  * `index_unique` — with distinct claims, a thing has one place in the list.
-/
import Mathlib.Data.List.Nodup

namespace Tasks

open List

variable {α β : Type*} (f : α → Option β)

/-- What the tasks claim, in their order. -/
def claims (l : List α) : List β := l.filterMap f

theorem claims_cons (x : α) (l : List α) : claims f (x :: l) = (f x).toList ++ claims f l := by
  rw [claims, filterMap_cons]
  cases f x <;> rfl

variable {l : List α}

theorem claims_append_none {x : α} (hx : f x = none) :
    claims f (l ++ [x]) = claims f l := by
  rw [claims, filterMap_append, filterMap_cons_none hx]
  exact append_nil _

theorem mem_claims {b : β} : b ∈ claims f l ↔ ∃ x ∈ l, f x = some b :=
  mem_filterMap

/-- The task `x` moves to `y`: its claim is given up and that of `y` is made. -/
theorem claims_set (y : α) : ∀ {l : List α} {i : Nat} {x : α}, l[i]? = some x →
    ((f x).toList ++ claims f (l.set i y)).Perm ((f y).toList ++ claims f l)
  | [], _, _, h => by cases h
  | a :: l, 0, x, h => by
      cases h
      rw [set_cons_zero, claims_cons f y, claims_cons f a]
      exact perm_append_comm_assoc _ _ _
  | a :: l, i + 1, x, h => by
      rw [set_cons_succ, claims_cons f a, claims_cons f a l]
      have hset := claims_set y (show l[i]? = some x from h)
      refine (perm_append_comm_assoc _ _ _).trans ?_
      exact (hset.append_left _).trans (perm_append_comm_assoc _ _ _)

/-- A task that claims nothing makes a claim, if `y` has one. -/
theorem claims_set_of_none {i : Nat} {x y : α} (hi : l[i]? = some x)
    (hx : f x = none) : (claims f (l.set i y)).Perm ((f y).toList ++ claims f l) := by
  have hset := claims_set f y hi
  rw [hx] at hset
  exact hset

/-- A task keeps its claim or gives it up. -/
theorem nodup_set {i : Nat} {x y : α} (hi : l[i]? = some x)
    (hy : f y = none ∨ f y = f x) (hl : (claims f l).Nodup) : (claims f (l.set i y)).Nodup := by
  have hset := claims_set f y hi
  obtain hy | hy := hy
  · grind
  · grind [perm_append_left_iff]

/-- A thing that is claimed once has one place. -/
theorem index_unique {b : β} : ∀ {l : List α} {i j : Nat} {x y : α}, (claims f l).Nodup →
    l[i]? = some x → l[j]? = some y → f x = some b → f y = some b → i = j
  | [], _, _, _, _, _, h, _, _, _ => by cases h
  | a :: l, i, j, x, y, hl, hi, hj, hx, hy => by
      rw [claims_cons, nodup_append] at hl
      have hfresh : ∀ z ∈ l, f a = some b → f z ≠ some b := by
        grind [mem_singleton_self, mem_claims]
      cases i with
      | zero => grind
      | succ i =>
        cases j with
        | zero => grind
        | succ j => rw [index_unique hl.2.1 hi hj hx hy]

end Tasks
