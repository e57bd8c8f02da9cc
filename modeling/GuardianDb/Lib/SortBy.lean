/-
`slice::sort_by` as insertion sort, for comparators that need not be lawful.

Rust sorts a slice of at most twenty elements by `insertion_sort_shift_left`:
each element in turn is moved left past its neighbours for as long as the
comparator says `Less`. For a comparator that is a total preorder every stable
sort gives this same result at any length. The definition also fixes what a
comparator that answers `Less` both ways does.

  * `sortBy_perm` — sorting permutes.
  * `sortBy_reverse_pairwise` — the reversed result descends in any lawful key
    that the comparator follows wherever the key decides.
  * `filter_sortBy_reverse` — a comparator that answers `Less` on ties leaves
    tied elements of the reversed result in their input order.
  * `eq_of_pairwise_isGE` — a descending list without ties is determined by
    its elements.
-/
import Mathlib.Data.List.Basic
import Mathlib.Data.List.Sort
import Mathlib.Order.Basic

namespace SortBy

open Std List

variable {α : Type*}

/-- Insert `x` into a prefix held back to front, shifting it past every
neighbour it is `Less` than. -/
def insertTail (cmp : α → α → Ordering) (x : α) : List α → List α
  | [] => [x]
  | y :: ys => if cmp x y = .lt then y :: insertTail cmp x ys else x :: y :: ys

/-- The sorted prefix, back to front, after inserting `xs` in turn. -/
def insertAll (cmp : α → α → Ordering) (acc xs : List α) : List α :=
  xs.foldl (fun acc x => insertTail cmp x acc) acc

variable (cmp : α → α → Ordering)

@[simp] theorem insertAll_cons (acc xs : List α) (x : α) :
    insertAll cmp acc (x :: xs) = insertAll cmp (insertTail cmp x acc) xs := rfl

def sortBy (cmp : α → α → Ordering) (xs : List α) : List α :=
  (insertAll cmp [] xs).reverse

/-! ### Permutation -/

theorem insertTail_perm (cmp : α → α → Ordering) (x : α) :
    ∀ ys : List α, (insertTail cmp x ys).Perm (x :: ys)
  | [] => List.Perm.refl _
  | y :: ys => by
      rw [insertTail]
      split
      · exact ((insertTail_perm cmp x ys).cons y).trans (List.Perm.swap x y ys)
      · exact List.Perm.refl _

theorem insertAll_perm (cmp : α → α → Ordering) :
    ∀ xs acc : List α, (insertAll cmp acc xs).Perm (xs ++ acc)
  | [], acc => List.Perm.refl acc
  | x :: xs, acc =>
    (insertAll_perm cmp xs (insertTail cmp x acc)).trans
      (((insertTail_perm cmp x acc).append_left xs).trans perm_middle)

/-- **Sorting permutes.** -/
theorem sortBy_perm (xs : List α) : (sortBy cmp xs).Perm xs :=
  (reverse_perm _).trans (by simpa using insertAll_perm cmp xs [])

variable {xs : List α} {cmp : α → α → Ordering}

@[simp] theorem mem_sortBy {x : α} : x ∈ sortBy cmp xs ↔ x ∈ xs :=
  (sortBy_perm cmp xs).mem_iff

theorem nodup_sortBy : (sortBy cmp xs).Nodup ↔ xs.Nodup :=
  (sortBy_perm cmp xs).nodup_iff

/-! ### Order -/

/-- `cmp` answers as `key` does wherever `key` tells the elements of `s` apart. -/
def Follows (cmp key : α → α → Ordering) (s : α → Prop) : Prop :=
  ∀ a b, s a → s b → key a b ≠ .eq → cmp a b = key a b

section
variable {cmp key : α → α → Ordering} {s : α → Prop}

variable {x : α}

theorem insertTail_pairwise [TransCmp key] (hf : Follows cmp key s) (hx : s x) :
    ∀ {ys : List α}, (∀ y ∈ ys, s y) → ys.Pairwise (fun a b => (key a b).isGE) →
      (insertTail cmp x ys).Pairwise (fun a b => (key a b).isGE)
  | [], _, _ => pairwise_singleton _ x
  | y :: ys, hs, hp => by
      have hy : s y := hs y (.head _)
      obtain ⟨hhd, htl⟩ := pairwise_cons.mp hp
      rw [insertTail]
      split
      · rename_i hlt
        have hyx : (key y x).isGE := by
          rw [OrientedCmp.isGE_iff_isLE]
          by_cases he : key x y = .eq
          · simp [he]
          · rw [← hf x y hx hy he, hlt]; rfl
        refine pairwise_cons.mpr ⟨fun z hz => ?_,
          insertTail_pairwise hf hx (fun z hz => hs z (.tail y hz)) htl⟩
        rcases mem_cons.mp ((insertTail_perm cmp x ys).mem_iff.mp hz) with rfl | hz
        · exact hyx
        · exact hhd z hz
      · rename_i hnlt
        have hxy : (key x y).isGE := by
          by_cases he : key x y = .eq
          · simp [he]
          · rw [hf x y hx hy he] at hnlt
            exact Ordering.isGE_iff_ne_lt.mpr hnlt
        refine pairwise_cons.mpr ⟨fun z hz => ?_, hp⟩
        rcases mem_cons.mp hz with rfl | hz
        · exact hxy
        · exact TransCmp.isGE_trans hxy (hhd z hz)

theorem insertAll_pairwise [TransCmp key] (hf : Follows cmp key s) :
    ∀ {xs acc : List α}, (∀ x ∈ xs, s x) → (∀ x ∈ acc, s x) →
      acc.Pairwise (fun a b => (key a b).isGE) →
      (insertAll cmp acc xs).Pairwise (fun a b => (key a b).isGE)
  | [], _, _, _, hp => hp
  | x :: xs, acc, hxs, hacc, hp => by
      rw [insertAll_cons]
      refine insertAll_pairwise hf (fun y hy => hxs y (mem_cons_of_mem x hy)) ?_
        (insertTail_pairwise hf (hxs x mem_cons_self) hacc hp)
      intro y hy
      rcases mem_cons.mp ((insertTail_perm cmp x acc).mem_iff.mp hy) with rfl | hy
      · exact hxs y mem_cons_self
      · exact hacc y hy

/-- **Order of the result.** Reversed, the sorted list descends in every lawful
key that the comparator follows. -/
theorem sortBy_reverse_pairwise [TransCmp key] {xs : List α}
    (hf : Follows cmp key (· ∈ xs)) :
    (sortBy cmp xs).reverse.Pairwise (fun a b => (key a b).isGE) := by
  rw [sortBy, reverse_reverse]
  exact insertAll_pairwise hf (fun _ h => h) (by simp) List.Pairwise.nil

/-! ### Ties -/

variable {p : α → Bool}

/-- An element that ties with the selected ones, and is `Less` than whatever it
ties with, is shifted past all of them. -/
theorem filter_insertTail [TransCmp key] (hf : Follows cmp key s) (hx : s x) (hpx : p x = true) :
    ∀ {ys : List α}, (∀ y ∈ ys, s y) → ys.Pairwise (fun a b => (key a b).isGE) →
      (∀ y ∈ ys, p y = true → key x y = .eq) → (∀ y ∈ ys, key x y = .eq → cmp x y = .lt) →
      (insertTail cmp x ys).filter p = ys.filter p ++ [x]
  | [], _, _, _, _ => by simp [insertTail, hpx]
  | y :: ys, hs, hp, hclass, htie => by
      obtain ⟨hhd, htl⟩ := pairwise_cons.mp hp
      have hy : s y := hs y (.head _)
      rw [insertTail]
      split
      · have ih := filter_insertTail hf hx hpx (fun z hz => hs z (.tail y hz)) htl
          (fun z hz => hclass z (.tail y hz))
          (fun z hz => htie z (.tail y hz))
        rw [filter_cons, filter_cons, ih]
        split <;> rfl
      · rename_i hnlt
        -- `x` stops above `y`: everything from `y` on is strictly below it
        have hne : key x y ≠ .eq := fun he => hnlt (htie y (.head _) he)
        have hgt : key x y = .gt := by
          rw [hf x y hx hy hne] at hnlt
          cases h : key x y <;> simp_all
        have hnone : (y :: ys).filter p = [] := by
          refine filter_eq_nil_iff.mpr fun z hz hpz => ?_
          have hxz : key x z = .gt := by
            rcases mem_cons.mp hz with rfl | hz'
            · exact hgt
            · exact TransCmp.gt_of_gt_of_isGE hgt (hhd z hz')
          rw [hclass z hz hpz] at hxz
          exact absurd hxz (by decide)
        rw [filter_cons, if_pos hpx, hnone]
        rfl

theorem filter_insertTail_of_not (hpx : p x = false) :
    ∀ ys : List α, (insertTail cmp x ys).filter p = ys.filter p
  | [] => by simp [insertTail, hpx]
  | y :: ys => by
      rw [insertTail]
      split
      · rw [filter_cons, filter_cons, filter_insertTail_of_not hpx ys]
      · simp [hpx]

theorem filter_insertAll [TransCmp key] (hf : Follows cmp key s) {p : α → Bool} :
    ∀ {xs acc : List α}, (∀ x ∈ xs, s x) → (∀ x ∈ acc, s x) →
      acc.Pairwise (fun a b => (key a b).isGE) →
      (∀ a, s a → p a = true → ∀ b, s b → p b = true → key a b = .eq) →
      xs.Pairwise (fun y x => key x y = .eq → cmp x y = .lt) →
      (∀ y ∈ acc, ∀ x ∈ xs, key x y = .eq → cmp x y = .lt) →
      (insertAll cmp acc xs).filter p = acc.filter p ++ xs.filter p
  | [], acc, _, _, _, _, _, _ => by simp [insertAll]
  | x :: xs, acc, hxs, hacc, hp, hclass, hpair, hcross => by
      have hx : s x := hxs x mem_cons_self
      obtain ⟨hhd, htl⟩ := pairwise_cons.mp hpair
      have hmem : ∀ y, y ∈ insertTail cmp x acc ↔ y = x ∨ y ∈ acc := fun y => by
        rw [(insertTail_perm cmp x acc).mem_iff, mem_cons]
      have ih := filter_insertAll hf (p := p) (fun y hy => hxs y (mem_cons_of_mem x hy))
        (fun y hy => by
          rcases (hmem y).mp hy with rfl | hy
          · exact hx
          · exact hacc y hy)
        (insertTail_pairwise hf hx hacc hp) hclass htl
        (fun y hy z hz => by
          rcases (hmem y).mp hy with rfl | hy
          · exact hhd z hz
          · exact hcross y hy z (mem_cons_of_mem x hz))
      rw [insertAll_cons, ih]
      cases hpx : p x with
      | true => grind [filter_insertTail]
      | false => rw [filter_insertTail_of_not hpx, filter_cons, hpx]; rfl

/-- **Ties keep their order.** When the comparator answers `Less` for a later
element that ties with an earlier one, reversing the result restores the input
order inside every class of tied elements. -/
theorem filter_sortBy_reverse [TransCmp key] {xs : List α} (hf : Follows cmp key (· ∈ xs))
    (hclass : ∀ a ∈ xs, p a = true → ∀ b ∈ xs, p b = true → key a b = .eq)
    (hpair : xs.Pairwise (fun y x => key x y = .eq → cmp x y = .lt)) :
    (sortBy cmp xs).reverse.filter p = xs.filter p := by
  rw [sortBy, reverse_reverse,
    filter_insertAll hf (fun _ h => h) (by simp) List.Pairwise.nil hclass hpair (by simp)]
  rfl

end

/-- **Uniqueness.** Two descending lists with the same elements, none tied with
another, are the same list. -/
theorem eq_of_pairwise_isGE {key : α → α → Ordering} [TransCmp key] {ys : List α}
    (hperm : xs.Perm ys) (hinj : ∀ a ∈ xs, ∀ b ∈ xs, key a b = .eq → a = b)
    (hxs : xs.Pairwise (fun a b => (key a b).isGE)) (hys : ys.Pairwise (fun a b => (key a b).isGE))
    : xs = ys := by
  refine hperm.eq_of_pairwise (fun a b ha hb hab hba => ?_) hxs hys
  refine hinj a ha b (hperm.mem_iff.mpr hb) ?_
  rw [OrientedCmp.isGE_iff_isLE] at hba
  cases h : key a b <;> simp_all

end SortBy
