/-
Ordered maps as lists of entries.

  * `get_insert`, `get_erase` — lookups after a change.
  * `eq_of_ordered` — lists in the strict order of their keys are equal if their elements are.
  * `toList_perm_erase` — the entries of a map are the one of a f and those without it.
  * `getElem?_foldl_insert` — entering new entries one by one.
-/
import Mathlib.Data.List.Perm.Basic
import Std.Data.ExtTreeMap

namespace OrderedMap

open Std ExtTreeMap

instance transOrdBits : TransOrd (BitVec 256) := inferInstance

variable {α κ β : Type} {cmp : κ → κ → Ordering} [TransCmp cmp] {f : α → κ} {l l' : List α}

theorem nodup_of_ordered (hl : l.Pairwise fun a b => cmp (f a) (f b) = .lt) : l.Nodup := by
  refine hl.imp ?_
  rintro a _ hlt rfl
  have hself : cmp (f a) (f a) = .eq := ReflCmp.compare_self
  rw [hself] at hlt
  cases hlt

theorem eq_of_ordered (hl : l.Pairwise fun a b => cmp (f a) (f b) = .lt)
    (hl' : l'.Pairwise fun a b => cmp (f a) (f b) = .lt) (h : ∀ a, a ∈ l ↔ a ∈ l') :
    l = l' := by
  have hperm : l.Perm l' :=
    (List.perm_ext_iff_of_nodup (nodup_of_ordered hl) (nodup_of_ordered hl')).mpr h
  refine hperm.eq_of_pairwise (fun a b _ _ hab hba => ?_) hl hl'
  have hgt : cmp (f a) (f b) = .gt := OrientedCmp.gt_of_lt hba
  rw [hgt] at hab
  cases hab

variable [LawfulEqCmp cmp] {m : ExtTreeMap κ β cmp} {k : κ} {v : β}

theorem get_insert [DecidableEq κ] (m : ExtTreeMap κ β cmp) (k : κ) (v : β) (k' : κ) :
    (m.insert k v)[k']? = if k' = k then some v else m[k']? := by
  simp only [getElem?_insert, LawfulEqCmp.compare_eq_iff_eq, @eq_comm _ k]

theorem get_erase [DecidableEq κ] (m : ExtTreeMap κ β cmp) (k k' : κ) :
    (m.erase k)[k']? = if k' = k then none else m[k']? := by
  simp only [getElem?_erase, LawfulEqCmp.compare_eq_iff_eq, @eq_comm _ k]

theorem erase_of_notMem (h : k ∉ m) : m.erase k = m := by
  refine ext_getElem? fun k' => ?_
  rw [getElem?_erase]
  split
  next heq => rw [← LawfulEqCmp.eq_of_compare heq, getElem?_eq_none h]
  next => rfl

theorem erase_insert (m : ExtTreeMap κ β cmp) (k : κ) (v : β) :
    (m.insert k v).erase k = m.erase k := by
  refine ext_getElem? fun k' => ?_
  simp only [getElem?_erase, getElem?_insert]
  split <;> rfl

theorem toList_perm_erase (h : m[k]? = some v) :
    m.toList.Perm ((k, v) :: (m.erase k).toList) := by
  have hnodup : ∀ m : ExtTreeMap κ β cmp, m.toList.Nodup := fun m =>
    nodup_of_ordered ordered_keys_toList
  refine (List.perm_ext_iff_of_nodup (hnodup m) (List.nodup_cons.mpr ⟨?_, hnodup _⟩)).mpr ?_
  · simp [mem_toList_iff_getElem?_eq_some, ReflCmp.compare_self]
  · rintro ⟨k', v'⟩
    simp only [mem_toList_iff_getElem?_eq_some, List.mem_cons, Prod.mk.injEq, getElem?_erase,
      LawfulEqCmp.compare_eq_iff_eq]
    by_cases hk : k = k'
    · subst hk
      simp [h, eq_comm]
    · simp [hk, Ne.symm hk]

theorem getElem?_foldl_insert {ps : List (κ × β)} (hkeys : (ps.map (·.1)).Nodup)
    (hnew : ∀ p ∈ ps, p.1 ∉ m) :
    (ps.foldl (fun m p => m.insert p.1 p.2) m)[k]? = some v ↔ (k, v) ∈ ps ∨ m[k]? = some v := by
  induction ps generalizing m with
  | nil => simp
  | cons p ps ih =>
    rw [List.map_cons, List.nodup_cons] at hkeys
    have hfresh : ∀ q ∈ ps, q.1 ∉ m.insert p.1 p.2 := by
      intro q hq hmem
      rcases mem_insert.mp hmem with hc | hmem
      · exact hkeys.1 (LawfulEqCmp.eq_of_compare hc ▸ List.mem_map_of_mem hq)
      · exact hnew q (.tail p hq) hmem
    rw [List.foldl_cons, ih hkeys.2 hfresh, getElem?_insert, List.mem_cons]
    by_cases hk : p.1 = k
    · have hm : m[k]? = none := getElem?_eq_none (hk ▸ hnew p (.head _))
      obtain ⟨k', v'⟩ := p
      subst hk
      simp [ReflCmp.compare_self, hm, or_comm, eq_comm]
    · have hne : (k, v) ≠ p := fun heq => hk (by rw [← heq])
      simp [hk, hne]

end OrderedMap
