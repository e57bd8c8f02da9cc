/-
The set operations of a query (`apply_set_op`).

The claim of SQL is about rows that are not distinct (`values_not_distinct`); the code
looks at their keys. EXCEPT ALL and INTERSECT ALL keep every copy of a row or none.

  * `setOps_exact_iff` — UNION, EXCEPT and INTERSECT treat the rows as multisets exactly
    when rows that are not distinct have one key and no row of both sides is more frequent
    on the left.
-/
import GuardianDb.Sql.RowSecurity

namespace GuardianDb.Sql

open Relational List

variable {C : Crates}

/-- `values_not_distinct`. -/
def valuesNotDistinct (a b : SqlValue C) : Bool :=
  match a.isNull, b.isNull with
  | true, true => true
  | false, false => a.sqlEq b == some true
  | _, _ => false

/-- Rows that are the same to SQL. -/
def sameRow : Tuple C → Tuple C → Bool
  | [], [] => true
  | a :: s, b :: t => valuesNotDistinct a b && sameRow s t
  | _, _ => false

/-- How often a row occurs. -/
def multiplicity (rows : List (Tuple C)) (t : Tuple C) : Nat := rows.countP (sameRow t)

/-- The set operations on two row sets return each row as often as their multisets,
and the DISTINCT forms their sets, have it. -/
def SetOpsExact (left right : RowSet C) : Prop :=
  ∀ t ∈ left.rows ++ right.rows,
    let m := multiplicity left.rows t
    let n := multiplicity right.rows t
    let result := fun op all => multiplicity (applySetOp left right op all).rows t
    result .union true = m + n ∧ result .except true = m - n ∧ result .intersect true = min m n ∧
    result .union false = (if 0 < m ∨ 0 < n then 1 else 0) ∧
    result .except false = (if 0 < m ∧ n = 0 then 1 else 0) ∧
    result .intersect false = if 0 < m ∧ 0 < n then 1 else 0

/-- Rows with one key are the same, and what is the same as the same row is. Values that are
not equal to themselves are excluded: NaN and arrays with NULL elements. -/
structure KeysSound (rows : List (Tuple C)) : Prop where
  same : ∀ s ∈ rows, ∀ t ∈ rows, tupleKey s = tupleKey t → sameRow s t = true
  trans : ∀ s ∈ rows, ∀ t ∈ rows, ∀ u ∈ rows, sameRow s t = true → sameRow t u = true →
    sameRow s u = true

/-- Rows that are the same have one key. -/
def KeysComplete (rows : List (Tuple C)) : Prop :=
  ∀ s ∈ rows, ∀ t ∈ rows, sameRow s t = true → tupleKey s = tupleKey t

/-! ### Counting keys -/

/-- How often a key occurs. -/
def keyCount (rows : List (Tuple C)) (k : List (List Char)) : Nat := (rows.map tupleKey).count k

variable {left right : RowSet C}

theorem keyCount_distinct (op : SetOperator) (k : List (List Char)) :
    keyCount (applySetOp left right op false).rows k =
      if 0 < keyCount (applySetOp left right op true).rows k then 1 else 0 := by
  obtain ⟨hnodup, hmem⟩ := keys_dedupeBy tupleKey (applySetOp left right op true).rows
  refine hnodup.count.trans ?_
  exact if_congr ((hmem k).trans count_pos_iff.symm) rfl rfl

theorem count_filter_key (rows : List (Tuple C)) (p : List (List Char) → Bool)
    (k : List (List Char)) : ((rows.filter fun t => p (tupleKey t)).map tupleKey).count k =
      if p k then (rows.map tupleKey).count k else 0 := by
  have hcomm : (rows.filter fun t => p (tupleKey t)).map tupleKey =
      (rows.map tupleKey).filter p := by rw [filter_map]; rfl
  rw [hcomm]
  split
  · exact count_filter ‹_›
  · refine count_eq_zero.mpr fun hk => ?_
    exact absurd (mem_filter.mp hk).2 ‹_›

theorem keyCount_union (k : List (List Char)) :
    keyCount (applySetOp left right .union true).rows k =
      keyCount left.rows k + keyCount right.rows k := by
  simp [keyCount, applySetOp]

theorem keyCount_except (k : List (List Char)) :
    keyCount (applySetOp left right .except true).rows k =
      if keyCount right.rows k = 0 then keyCount left.rows k else 0 :=
  (count_filter_key left.rows (!(right.rows.map tupleKey).contains ·) k).trans
    (if_congr (by simp [keyCount, count_eq_zero]) rfl rfl)

theorem keyCount_intersect (k : List (List Char)) :
    keyCount (applySetOp left right .intersect true).rows k =
      if keyCount right.rows k = 0 then 0 else keyCount left.rows k :=
  (count_filter_key left.rows (right.rows.map tupleKey).contains k).trans
    ((if_congr (by simp [keyCount, count_eq_zero]) rfl rfl).trans (ite_not _ _ _))

/-! ### Rows and keys -/

/-- The rows that an operation returns are rows of its sides. -/
theorem mem_applySetOp {op : SetOperator} {all : Bool} {t : Tuple C}
    (h : t ∈ (applySetOp left right op all).rows) : t ∈ left.rows ++ right.rows := by
  have hall : t ∈ (applySetOp left right op true).rows := by
    cases all with
    | true => exact h
    | false => exact mem_of_mem_dedupeBy h
  cases op with
  | union => exact hall
  | except => exact mem_append_left _ (mem_filter.mp hall).1
  | intersect => exact mem_append_left _ (mem_filter.mp hall).1

/-- Where keys and rows agree, a row occurs as often as its key. -/
theorem multiplicity_eq_keyCount {all rows : List (Tuple C)} (hsound : KeysSound all)
    (hcomplete : KeysComplete all) (hrows : ∀ s ∈ rows, s ∈ all) {t : Tuple C} (ht : t ∈ all) :
    multiplicity rows t = keyCount rows (tupleKey t) := by
  rw [multiplicity, keyCount, count, countP_map]
  refine countP_congr fun s hs => ?_
  simp only [Function.comp_apply, beq_iff_eq]
  exact ⟨fun h => (hcomplete t ht s (hrows s hs) h).symm,
    fun h => hsound.same t ht s (hrows s hs) h.symm⟩

/-- If UNION returns each row once, rows that are the same have one key: the first rows of
two keys are both in the result. -/
theorem keysComplete_of_union (hsound : KeysSound (left.rows ++ right.rows))
    (h : ∀ t ∈ left.rows ++ right.rows,
      multiplicity (applySetOp left right .union false).rows t ≤ 1) :
    KeysComplete (left.rows ++ right.rows) := by
  intro s hs t ht hsame
  have hfirst : ∀ a ∈ left.rows ++ right.rows, ∃ b ∈ (applySetOp left right .union false).rows,
      tupleKey b = tupleKey a := by
    intro a ha
    have hkey := (keys_dedupeBy tupleKey (left.rows ++ right.rows)).2 (tupleKey a)
    exact mem_map.mp (hkey.mpr (mem_map_of_mem ha))
  obtain ⟨u, hu, hku⟩ := hfirst s hs
  obtain ⟨v, hv, hkv⟩ := hfirst t ht
  have hsu : sameRow s u = true := hsound.same s hs u (mem_applySetOp hu) hku.symm
  have htv : sameRow t v = true := hsound.same t ht v (mem_applySetOp hv) hkv.symm
  have hsv : sameRow s v = true := hsound.trans s hs t ht v (mem_applySetOp hv) hsame htv
  have hmemu := mem_filter.mpr ⟨hu, hsu⟩
  have hmemv := mem_filter.mpr ⟨hv, hsv⟩
  have hone : ((applySetOp left right .union false).rows.filter (sameRow s)).length ≤ 1 :=
    countP_eq_length_filter ▸ h s hs
  obtain ⟨a, ha⟩ := length_eq_one_iff.mp (hone.antisymm (length_pos_of_mem hmemu))
  rw [ha, mem_singleton] at hmemu hmemv
  rw [← hku, hmemu, ← hmemv, hkv]

/-- **The set operations follow multiset semantics exactly for row sets of which rows that
are the same have one key, and no row of both is more frequent on the left.** -/
theorem setOps_exact_iff (left right : RowSet C) (hsound : KeysSound (left.rows ++ right.rows)) :
    SetOpsExact left right ↔ KeysComplete (left.rows ++ right.rows) ∧
      ∀ t ∈ left.rows, 0 < multiplicity right.rows t →
        multiplicity left.rows t ≤ multiplicity right.rows t := by
  -- with keys that agree the question is about counts of keys
  have hcounts : KeysComplete (left.rows ++ right.rows) → (SetOpsExact left right ↔
      ∀ t ∈ left.rows ++ right.rows, 0 < multiplicity left.rows t →
        0 < multiplicity right.rows t →
          multiplicity left.rows t ≤ multiplicity right.rows t) := by
    intro hcomplete
    refine forall₂_congr fun t ht => ?_
    have hmult : ∀ {rows}, (∀ s ∈ rows, s ∈ left.rows ++ right.rows) →
        multiplicity rows t = keyCount rows (tupleKey t) :=
      fun hrows => multiplicity_eq_keyCount hsound hcomplete hrows ht
    have hresult : ∀ op all, multiplicity (applySetOp left right op all).rows t =
        keyCount (applySetOp left right op all).rows (tupleKey t) :=
      fun op all => hmult fun s hs => mem_applySetOp hs
    simp only [hresult, hmult fun s hs => mem_append_left right.rows hs,
      hmult fun s hs => mem_append_right left.rows hs, keyCount_distinct, keyCount_union,
      keyCount_except, keyCount_intersect]
    generalize keyCount left.rows (tupleKey t) = m
    generalize keyCount right.rows (tupleKey t) = n
    rcases Nat.eq_zero_or_pos n with rfl | hn
    · simp
    · grind
  constructor
  · intro h
    have hcomplete : KeysComplete (left.rows ++ right.rows) := by
      refine keysComplete_of_union hsound fun t ht => ?_
      have hunion := (h t ht).2.2.2.1
      grind
    refine ⟨hcomplete, fun t ht hpos => (hcounts hcomplete).mp h t (mem_append_left _ ht) ?_ hpos⟩
    have hself := hsound.same t (mem_append_left _ ht) t (mem_append_left _ ht) rfl
    exact countP_pos_iff.mpr ⟨t, ht, hself⟩
  · rintro ⟨hcomplete, hle⟩
    refine (hcounts hcomplete).mpr fun t ht hleft hright => ?_
    -- a row that occurs on the left has the key of a row there
    obtain ⟨s, hs, hts⟩ := countP_pos_iff.mp hleft
    have hkey := hcomplete t ht s (mem_append_left _ hs) hts
    have hall := fun rows (hrows : ∀ a ∈ rows, a ∈ left.rows ++ right.rows) =>
      (multiplicity_eq_keyCount hsound hcomplete hrows ht).trans (hkey ▸
        (multiplicity_eq_keyCount hsound hcomplete hrows (mem_append_left _ hs)).symm)
    rw [hall left.rows fun a ha => mem_append_left _ ha,
      hall right.rows fun a ha => mem_append_right _ ha] at *
    exact hle s hs hright

/-- One copy on the left and two on the right. -/
theorem setOps_exact_copies : SetOpsExact (C := plainCrates)
    ⟨[], [[.int4 1], [.null]]⟩ ⟨[], [[.int4 1], [.int4 1]]⟩ := by
  refine (setOps_exact_iff _ _ ⟨by decide, by decide⟩).mpr ⟨?_, by decide⟩
  unfold KeysComplete
  decide

/-- The two spellings of a cube, as row sets. -/
def upwardRows : RowSet plainCrates := ⟨[], [[.cube upward]]⟩

def downwardRows : RowSet plainCrates := ⟨[], [[.cube downward]]⟩

/-- They are the same row. -/
theorem sameRow_cubes : ∀ s ∈ upwardRows.rows ++ downwardRows.rows,
    ∀ t ∈ upwardRows.rows ++ downwardRows.rows, sameRow s t = true := by
  decide +kernel

/-- EXCEPT ALL of two copies of a row and one leaves none, and UNION takes the two spellings
of a cube for two rows. -/
theorem except_all_drops_copies :
    ¬ SetOpsExact (C := plainCrates) ⟨[], [[.int4 1], [.int4 1]]⟩ ⟨[], [[.int4 1]]⟩ ∧
      ¬ SetOpsExact upwardRows downwardRows := by
  constructor
  · intro h
    exact absurd (h [.int4 1] (by simp)).2.1 (by decide)
  · intro h
    have hsound : KeysSound (upwardRows.rows ++ downwardRows.rows) :=
      ⟨fun s hs t ht _ => sameRow_cubes s hs t ht, fun s hs _ _ u hu _ _ => sameRow_cubes s hs u hu⟩
    have hcomplete := keysComplete_of_union hsound fun t ht => by
      have hunion := (h t ht).2.2.2.1
      grind
    have hkeys := hcomplete [.cube upward] (.head _) [.cube downward] (.tail _ (.head _))
      (sameRow_cubes _ (.head _) _ (.tail _ (.head _)))
    exact indexKey_upward_ne (cons.inj hkeys).1

end GuardianDb.Sql
