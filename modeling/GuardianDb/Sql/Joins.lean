/-
Joins (`exec_join`) against their relational definition.

The code is a nested loop that notes, for each right row, whether some left row has
matched it. After the loop over a left row the notes say so for all left rows up to it
(`joinLeft_eq`, `joinLeft_foldlM`); the rows that are still unmatched are those that the
relational definition pads.

  * `execJoin_perm` — a join returns the pairs that match and, padded with NULLs, the rows
    of the sides it keeps that match nothing, each as often as the inputs have it.
-/
import GuardianDb.Sql.RowSecurity

namespace GuardianDb.Sql

open Relational List

variable {C : Crates}

/-- The rows of a join with the predicate `p` on combined rows. -/
def relationalJoin (keyword : JoinKeyword) (left right : RowSet C) (p : Tuple C → Bool) :
    List (Tuple C) :=
  (left.rows.flatMap fun l => (right.rows.map (l ++ ·)).filter p) ++
    (if keyword.keepsLeft then
      (left.rows.filter fun l => right.rows.all fun t => !p (l ++ t)).map
        (· ++ List.replicate right.schema.length .null)
    else []) ++
    if keyword.keepsRight then
      (right.rows.filter fun t => left.rows.all fun l => !p (l ++ t)).map
        (List.replicate left.schema.length .null ++ ·)
    else []

/-- A row without partners stands for itself, if it is kept. -/
theorem flatMap_or_self {α β : Type} (keeps : Bool) (f : α → List β) (g : α → β) (l : List α) :
    (l.flatMap fun a => if (f a).isEmpty && keeps then [g a] else f a).Perm
      (l.flatMap f ++ if keeps then (l.filter fun a => (f a).isEmpty).map g else []) := by
  induction l with
  | nil => cases keeps <;> exact .refl _
  | cons a l ih =>
    rw [flatMap_cons, flatMap_cons]
    cases keeps with
    | false => simp
    | true =>
      cases hf : f a with
      | nil =>
        simp only [hf, filter_cons, isEmpty_nil]
        exact (ih.cons (g a)).trans perm_middle.symm
      | cons b bs => simpa [hf] using ih.append_left (b :: bs)

section
variable {hit : Tuple C → Except SqlError Bool} {p : Tuple C → Bool}

/-- The loop over the right rows, from the row at some place on: it adds the pairs that
match and notes which right rows they have. -/
theorem joinRow_from {l : Tuple C} {ts : List (Tuple C)}
    (hp : ∀ t ∈ ts, hit (l ++ t) = .ok (p (l ++ t))) (f : Tuple C → Bool) (any : Bool)
    (rows : List (Tuple C)) (pre : List Bool) :
    ((ts.zipIdx pre.length).foldlM (fun s t => do
        if ← hit (l ++ t.1) then return (true, s.2.1 ++ [l ++ t.1], s.2.2.set t.2 true)
        else return s) (any, rows, pre ++ ts.map f) : Except SqlError _) =
      .ok (any || ts.any fun t => p (l ++ t), rows ++ (ts.map (l ++ ·)).filter p,
        pre ++ ts.map fun t => f t || p (l ++ t)) := by
  induction ts generalizing any rows pre with
  | nil => simp [pure, Except.pure]
  | cons t ts ih =>
    obtain ⟨ht, hts⟩ := forall_mem_cons.mp hp
    have hset : (pre ++ f t :: ts.map f).set pre.length true = pre ++ [true] ++ ts.map f := by simp
    have hkeep : pre ++ f t :: ts.map f = pre ++ [f t] ++ ts.map f := by simp
    rw [zipIdx_cons, foldlM_cons, map_cons, ht]
    cases hpt : p (l ++ t) with
    | true =>
      have hrest := ih hts true (rows ++ [l ++ t]) (pre ++ [true])
      rw [length_append, length_singleton] at hrest
      change foldlM _ (true, rows ++ [l ++ t], (pre ++ f t :: ts.map f).set pre.length true) _ = _
      rw [hset, hrest]
      simp [hpt]
    | false =>
      have hrest := ih hts any rows (pre ++ [f t])
      rw [length_append, length_singleton] at hrest
      change foldlM _ (any, rows, pre ++ f t :: ts.map f) _ = _
      rw [hkeep, hrest]
      simp [hpt]

/-- The loop over the right rows for one left row. -/
theorem joinRow_eq {l : Tuple C} {right : List (Tuple C)}
    (hp : ∀ t ∈ right, hit (l ++ t) = .ok (p (l ++ t))) (f : Tuple C → Bool)
    (rows : List (Tuple C)) : joinRow hit right l (rows, right.map f) =
      .ok (right.any fun t => p (l ++ t), rows ++ (right.map (l ++ ·)).filter p,
        right.map fun t => f t || p (l ++ t)) :=
  joinRow_from hp f false rows []

/-- What a join with the predicate returns for a left row: its pairs, or the row itself. -/
def joined (keyword : JoinKeyword) (right : RowSet C) (p : Tuple C → Bool) (l : Tuple C) :
    List (Tuple C) :=
  if ((right.rows.map (l ++ ·)).filter p).isEmpty && keyword.keepsLeft then
    [l ++ List.replicate right.schema.length .null]
  else (right.rows.map (l ++ ·)).filter p

variable {keyword : JoinKeyword} {left right : RowSet C}

theorem joinLeft_eq {l : Tuple C} (hp : ∀ t ∈ right.rows, hit (l ++ t) = .ok (p (l ++ t)))
    (f : Tuple C → Bool) (rows : List (Tuple C)) :
    joinLeft hit keyword right (rows, right.rows.map f) l =
      .ok (rows ++ joined keyword right p l, right.rows.map fun t => f t || p (l ++ t)) := by
  have hempty : ((right.rows.map (l ++ ·)).filter p).isEmpty =
      !right.rows.any fun t => p (l ++ t) := by
    rw [Bool.eq_iff_iff]
    simp
  rw [joinLeft, joinRow_eq hp, joined, hempty]
  by_cases halone : (!right.rows.any fun t => p (l ++ t)) && keyword.keepsLeft
  · have hnone : (right.rows.map (l ++ ·)).filter p = [] := by
      rw [← List.isEmpty_iff, hempty]
      exact (Bool.and_eq_true_iff.mp halone).1
    simp [halone, hnone, bind, Except.bind, pure, Except.pure]
  · simp [halone, bind, Except.bind, pure, Except.pure]

/-- The loop over the left rows, from any rows and notes on. -/
theorem joinLeft_foldlM {ls : List (Tuple C)}
    (hp : ∀ l ∈ ls, ∀ t ∈ right.rows, hit (l ++ t) = .ok (p (l ++ t))) (f : Tuple C → Bool)
    (rows : List (Tuple C)) :
    ls.foldlM (joinLeft hit keyword right) (rows, right.rows.map f) =
      .ok (rows ++ ls.flatMap (joined keyword right p),
        right.rows.map fun t => f t || ls.any fun l => p (l ++ t)) := by
  induction ls generalizing f rows with
  | nil => simp [pure, Except.pure]
  | cons l ls ih =>
    obtain ⟨hl, hls⟩ := forall_mem_cons.mp hp
    rw [foldlM_cons, joinLeft_eq hl]
    refine (ih hls (fun t => f t || p (l ++ t)) _).trans ?_
    simp [Bool.or_assoc]

/-- The rows of a join are those of the relational definition. -/
theorem joinRows_perm
    (hp : ∀ l ∈ left.rows, ∀ t ∈ right.rows, hit (l ++ t) = .ok (p (l ++ t))) :
    ∃ rows, joinRows hit keyword left right = .ok rows ∧
      rows.Perm (relationalJoin keyword left right p) := by
  have hpad : ∀ g : Tuple C → Bool, ((right.rows.zip (right.rows.map g)).filterMap fun t =>
      if t.2 then none else some (List.replicate left.schema.length .null ++ t.1)) =
      (right.rows.filter fun t => !g t).map (List.replicate left.schema.length .null ++ ·) := by
    intro g
    induction right.rows with
    | nil => rfl
    | cons t ts ih => cases hg : g t <;> simp [hg, ih]
  have halone : ∀ l, ((right.rows.map (l ++ ·)).filter p).isEmpty =
      right.rows.all fun t => !p (l ++ t) := by
    intro l
    rw [Bool.eq_iff_iff]
    simp
  have hleft := flatMap_or_self keyword.keepsLeft (fun l => (right.rows.map (l ++ ·)).filter p)
    (fun l => l ++ List.replicate right.schema.length SqlValue.null) left.rows
  change (left.rows.flatMap (joined keyword right p)).Perm _ at hleft
  simp only [halone] at hleft
  have hstart : List.replicate right.rows.length false = right.rows.map fun _ => false := by simp
  unfold joinRows relationalJoin
  rw [hstart, joinLeft_foldlM hp]
  cases keyword.keepsRight with
  | false => exact ⟨_, rfl, by simpa using hleft⟩
  | true =>
    refine ⟨_, rfl, ?_⟩
    rw [hpad]
    simpa [← not_any_eq_all_not] using hleft.append_right _

end

/-- **A join returns its relational definition, with multiplicities**, for every predicate
that evaluates without error. -/
theorem execJoin_perm (r : Evaluator C) (x : QueryExec C) (left right : RowSet C)
    (relation : TableFactor) (keyword : JoinKeyword) (constraint : JoinConstraint)
    (outer : List (Frame C)) (p : Tuple C → Bool)
    (hright : execFactor r x relation outer = .ok right)
    (hp : ∀ l ∈ left.rows, ∀ t ∈ right.rows,
      joinMatches r constraint left.schema right.schema outer (l ++ t) = .ok (p (l ++ t))) :
    ∃ rows, execJoin r x left (.mk relation (.conditional keyword constraint)) outer =
      .ok ⟨left.schema ++ right.schema, rows⟩ ∧
        rows.Perm (relationalJoin keyword left right p) := by
  obtain ⟨rows, hrows, hperm⟩ : ∃ rows, joinRows _ keyword left right = .ok rows ∧
      rows.Perm (relationalJoin keyword left right p) := joinRows_perm hp
  refine ⟨rows, ?_, hperm⟩
  simp only [execJoin, hright]
  change (joinRows _ keyword left right >>= _ : Except SqlError (RowSet C)) = _
  rw [hrows]
  rfl

/-- Both columns of a combined row are the same number. -/
def sameNumbers : Tuple plainCrates → Bool
  | [.int4 a, .int4 b] => a == b
  | _ => false

/-- An evaluator for the condition that they are, over a relation with the rows 1 and 3. -/
def sameNumbersEval : Evaluator plainCrates :=
  ⟨fun _ frames _ => .ok (.bool (frames.any fun f => sameNumbers f.row)),
    fun _ _ => .ok ⟨[⟨none, "b"⟩], [[.int4 1], [.int4 3]]⟩⟩

/-- A full join of 1, 1, 2 with 1, 3: each copy of the left row has its pair. -/
theorem execJoin_perm_copies : ∃ rows, execJoin sameNumbersEval ownNotesExec
    ⟨[⟨none, "a"⟩], [[.int4 1], [.int4 1], [.int4 2]]⟩
      (.mk (.derived allNotes ⟨none, []⟩) (.conditional .fullOuter (.on (.ident "a")))) [] =
        .ok ⟨[⟨none, "a"⟩, ⟨some "subquery", "b"⟩], rows⟩ ∧
      rows.Perm [[.int4 1, .int4 1], [.int4 1, .int4 1], [.int4 2, .null], [.null, .int4 3]] :=
  execJoin_perm _ _ _ ⟨[⟨some "subquery", "b"⟩], [[.int4 1], [.int4 3]]⟩ _ .fullOuter _ _
    sameNumbers rfl (by decide)

end GuardianDb.Sql
