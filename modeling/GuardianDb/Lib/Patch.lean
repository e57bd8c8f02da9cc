/-
Batches of writes to a map, seen as patches.

A batch of writes leaves a key alone, sets it or removes it; later writes hide
earlier ones. A `Patch` records just that, so that a history of writes, a staged
last-writer table and a replay in another order can be compared: they have the
same effect on every map exactly when they are the same patch.

  * `apply_andThen` — applying patches one after another is applying one patch.
  * `apply_comm_iff` — two patches commute on a map exactly when they agree on
    the keys both touch.
-/
import Mathlib.Data.Option.Basic

/-- What a batch of writes does to each key: `none` leaves it, `some none`
removes it, `some (some v)` sets it. -/
abbrev Patch (ι β : Type*) := ι → Option (Option β)

namespace Patch

variable {ι β : Type*}

/-- The batch without writes. -/
def nop : Patch ι β := fun _ => none

/-- The map after the writes. -/
def apply (p : Patch ι β) (m : ι → Option β) : ι → Option β := fun i => (p i).getD (m i)

/-- First `p`, then `q`. -/
def andThen (p q : Patch ι β) : Patch ι β := fun i => (q i).or (p i)

@[simp] theorem nop_andThen (p : Patch ι β) : nop.andThen p = p := by
  funext i
  simp [andThen, nop]

theorem andThen_assoc (p q r : Patch ι β) : (p.andThen q).andThen r = p.andThen (q.andThen r) := by
  funext i
  simp [andThen, Option.or_assoc]

theorem apply_andThen (p q : Patch ι β) (m : ι → Option β) :
    (p.andThen q).apply m = q.apply (p.apply m) := by
  funext i
  cases hq : q i <;> simp [andThen, apply, hq]

/-- A patch leaves a map alone exactly when it writes what is there. -/
theorem apply_eq_self_iff (p : Patch ι β) (m : ι → Option β) :
    p.apply m = m ↔ ∀ i v, p i = some v → m i = v := by
  constructor
  · intro h i v hv
    have hi := congrFun h i
    rw [apply, hv, Option.getD_some] at hi
    exact hi.symm
  · intro h
    funext i
    cases hp : p i with
    | none => simp [apply, hp]
    | some v => simp [apply, hp, h i v hp]

/-- **Patches commute exactly when they agree** on the keys both touch. -/
theorem apply_comm_iff (p q : Patch ι β) (m : ι → Option β) :
    p.apply (q.apply m) = q.apply (p.apply m) ↔
      ∀ i a b, p i = some a → q i = some b → a = b := by
  constructor
  · intro h i a b ha hb
    have hi := congrFun h i
    simpa [apply, ha, hb] using hi
  · intro h
    funext i
    cases hp : p i with
    | none => simp [apply, hp]
    | some a =>
      cases hq : q i with
      | none => simp [apply, hp, hq]
      | some b => simp [apply, hp, hq, h i a b hp hq]

def single [DecidableEq ι] (i : ι) (v : Option β) : Patch ι β :=
  fun j => if j = i then some v else none

/-- Writes one after another. -/
def ofWrites [DecidableEq ι] : List (ι × Option β) → Patch ι β
  | [] => nop
  | w :: ws => (single w.1 w.2).andThen (ofWrites ws)

theorem ofWrites_cons [DecidableEq ι] (w : ι × Option β) (ws : List (ι × Option β)) (i : ι) :
    ofWrites (w :: ws) i = (ofWrites ws i).or (if i = w.1 then some w.2 else none) := rfl

variable {ws : List (ι × Option β)}

theorem mem_of_ofWrites [DecidableEq ι] {i : ι} {v : Option β}
    (h : ofWrites ws i = some v) : (i, v) ∈ ws := by
  induction ws with
  | nil => cases h
  | cons w ws ih =>
    rw [ofWrites_cons] at h
    cases hrest : ofWrites ws i with
    | some u => simp_all
    | none => grind

theorem isSome_ofWrites_of_mem [DecidableEq ι] {i : ι} {v : Option β}
    (h : (i, v) ∈ ws) : (ofWrites ws i).isSome := by
  induction ws with
  | nil => cases h
  | cons w ws ih =>
    rw [ofWrites_cons, Option.isSome_or, Bool.or_eq_true]
    rcases List.mem_cons.mp h with rfl | h
    · exact .inr (by simp)
    · exact .inl (ih h)

/-- Writes that never give one key two values can be made in any order: each
decides its key. -/
theorem ofWrites_eq_some [DecidableEq ι]
    (hfun : ∀ i v v', (i, v) ∈ ws → (i, v') ∈ ws → v = v') (i : ι) (v : Option β) :
    ofWrites ws i = some v ↔ (i, v) ∈ ws := by
  refine ⟨mem_of_ofWrites, fun h => ?_⟩
  obtain ⟨v', hv'⟩ := Option.isSome_iff_exists.mp (isSome_ofWrites_of_mem h)
  rw [hv', hfun i v v' h (mem_of_ofWrites hv')]

end Patch
