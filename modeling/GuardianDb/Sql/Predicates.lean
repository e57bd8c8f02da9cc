/-
The predicates that compare with several values: BETWEEN, IN, ANY and ALL
(`eval_between`, `eval_in_list`, `eval_in_subquery`, `eval_any_all`).

  * `predicates_threeValued_iff` — when these predicates are the AND or OR of the
    comparisons that they stand for.
-/
import GuardianDb.Sql.RowSecurity

namespace GuardianDb.Sql

open Relational List

section
variable {C : Crates}

/-- A truth value as a SQL value. -/
def ofTruth : Option Bool → SqlValue C
  | some b => .bool b
  | none => .null

/-- What the operators of `compare_op` say of an order. -/
def BinaryOperator.holds (ord : Ordering) : BinaryOperator → Option Bool
  | .eq | .other "<=>" => some (ord == .eq)
  | .other "<>" => some (ord != .eq)
  | .other ">" => some (ord == .gt)
  | .other "<" => some (ord == .lt)
  | .other ">=" => some (ord != .lt)
  | .other "<=" => some (ord != .gt)
  | _ => none

/-- `compare_op`, as a truth value. -/
def answer (casts : EvalEnv C) (op : BinaryOperator) (a b : SqlValue C) : Option Bool :=
  if a.isNull || b.isNull then none
  else
    let p := coercePair casts a b
    (p.1.compare p.2).bind fun ord => op.holds ord

/-- `eval_in_list` and `eval_in_subquery`, once the values are there. -/
def inValues (casts : EvalEnv C) (v : SqlValue C) (items : List (SqlValue C)) (negated : Bool) :
    Except SqlError (SqlValue C) :=
  if v.isNull then .ok .null else QueryEnv.memberLoop casts v negated (items.map .ok) false

/-- `eval_any_all`, once the values are there. -/
def anyAll (env : QueryEnv C) (casts : EvalEnv C) (any : Bool) (v : SqlValue C)
    (op : BinaryOperator) (items : List (SqlValue C)) : SqlValue C :=
  if v.isNull then .null
  else { env with compareOther := fun op a b => ofTruth (answer casts op a b) }.quantifiedLoop
    casts any v op items false

/-- OR (`d` is true) and AND (`d` is false): a side that is `d` decides. -/
def connect (d : Bool) (l r : Option Bool) : Option Bool :=
  if l = some d ∨ r = some d then some d else if l = none ∨ r = none then none else some !d

/-- NOT. -/
def negate (v : SqlValue C) : SqlValue C := ofTruth ((truthy v).map (!·))

section
variable (casts : EvalEnv C) (d : Bool) (op : BinaryOperator) (v : SqlValue C)

/-- ANY (`d` is true) or ALL (`d` is false) of some values is decided, or one is NULL, or
all are comparable; and if the left side is NULL there are values. -/
def Decided (items : List (SqlValue C)) : Prop :=
  if v.isNull then items ≠ []
  else some d ∈ items.map (answer casts op v) ∨ none ∉ items.map (answer casts op v) ∨
    ∃ e ∈ items, e.isNull = true

/-- BETWEEN is false at neither bound if one of its operands is NULL; otherwise it is
false at one, or both are comparable. -/
def BetweenDecided (lo hi : SqlValue C) : Prop :=
  let sides := [answer casts (.other ">=") v lo, answer casts (.other "<=") v hi]
  if v.isNull || lo.isNull || hi.isNull then some false ∉ sides
  else some false ∈ sides ∨ none ∉ sides

/-- What the loops over the values find. -/
def found (sawNull : Bool) (items : List (SqlValue C)) : Option Bool :=
  if some d ∈ items.map (answer casts op v) then some d
  else if sawNull || items.any SqlValue.isNull then none else some !d

end

variable {casts : EvalEnv C} {d : Bool} {op : BinaryOperator} {v : SqlValue C}

theorem foldr_connect (d : Bool) (l : List (Option Bool)) :
    l.foldr (connect d) (some !d) =
      if some d ∈ l then some d else if none ∈ l then none else some !d := by
  induction l with
  | nil => simp
  | cons a l ih =>
    rw [foldr_cons, ih, connect]
    grind

theorem found_cons (sawNull : Bool) (e : SqlValue C) (items : List (SqlValue C)) :
    found casts d op v sawNull (e :: items) =
      if answer casts op v e = some d then some d
      else found casts d op v (sawNull || e.isNull) items := by
  simp only [found, map_cons, mem_cons, any_cons, Bool.or_assoc, eq_comm]
  grind

theorem truthy_ofTruth (b : Option Bool) : truthy (ofTruth b : SqlValue C) = b := by
  cases b <;> rfl

theorem compareEq_eq (a b : SqlValue C) : compareEq casts a b = ofTruth (answer casts .eq a b) := by
  unfold compareEq answer
  split
  · rfl
  · dsimp only
    cases (coercePair casts a b).1.compare (coercePair casts a b).2 <;> rfl

theorem memberLoop_eq (hv : v.isNull = false) (negated : Bool) (items : List (SqlValue C))
    (sawNull : Bool) : QueryEnv.memberLoop casts v negated (items.map .ok) sawNull =
      .ok (ofTruth ((found casts true .eq v sawNull items).map (· != negated))) := by
  induction items generalizing sawNull with
  | nil => cases sawNull <;> cases negated <;> rfl
  | cons e items ih =>
    change (if e.isNull then _ else _) = _
    rw [found_cons]
    cases he : e.isNull with
    | true => simp [answer, he, ih]
    | false =>
      have hanswer : answer casts .eq v e =
          (coercePair casts v e).1.sqlEq (coercePair casts v e).2 := by
        simp only [answer, hv, he, SqlValue.sqlEq]
        cases (coercePair casts v e).1.compare (coercePair casts v e).2 <;> rfl
      rw [hanswer, if_neg (by simp), Bool.or_false, ih]
      split
      · cases negated <;> rfl
      · rfl

theorem quantifiedLoop_eq (env : QueryEnv C)
    (henv : env.compareOther = fun op a b => ofTruth (answer casts op a b))
    (items : List (SqlValue C)) (sawNull : Bool) :
    env.quantifiedLoop casts d v op items sawNull = ofTruth (found casts d op v sawNull items) := by
  induction items generalizing sawNull with
  | nil => cases sawNull <;> cases d <;> rfl
  | cons e items ih =>
    have hop : env.compareOp casts op v e = ofTruth (answer casts op v e) := by
      unfold QueryEnv.compareOp
      split
      · exact compareEq_eq v e
      · rw [henv]
    rw [found_cons, QueryEnv.quantifiedLoop, hop, truthy_ofTruth]
    cases he : e.isNull with
    | true => simp [answer, he, ih]
    | false =>
      rw [if_neg (by simp), Bool.or_false, ih]
      cases answer casts op v e with
      | none => simp
      | some b => cases b <;> cases d <;> rfl

/-- The loops find the AND or OR exactly if it is decided. -/
theorem decided_iff (items : List (SqlValue C)) :
    (if v.isNull then none else found casts d op v false items) =
      (items.map (answer casts op v)).foldr (connect d) (some !d) ↔
      Decided casts d op v items := by
  rw [foldr_connect, Decided]
  cases hv : v.isNull with
  | true => cases items <;> simp [answer, hv]
  | false =>
    have hnull : items.any SqlValue.isNull = true → none ∈ items.map (answer casts op v) := by
      intro h
      obtain ⟨e, he, hn⟩ := any_eq_true.mp h
      exact mem_map.mpr ⟨e, he, by simp [answer, hn]⟩
    rw [if_neg Bool.false_ne_true, if_neg Bool.false_ne_true, found, Bool.false_or,
      ← any_eq_true]
    by_cases hd : some d ∈ items.map (answer casts op v)
    · rw [if_pos hd, if_pos hd]
      exact iff_of_true rfl (.inl hd)
    · grind

theorem inValues_eq (items : List (SqlValue C)) (negated : Bool) :
    inValues casts v items negated = .ok (ofTruth
      ((if v.isNull then none else found casts true .eq v false items).map (· != negated))) := by
  unfold inValues
  cases hv : v.isNull with
  | true => rfl
  | false => exact memberLoop_eq hv negated items false

theorem between_eq (lo hi : SqlValue C) (negated : Bool) :
    QueryEnv.between casts v lo hi negated = ofTruth
      ((if v.isNull || lo.isNull || hi.isNull then none
        else some (answer casts (.other ">=") v lo == some true &&
          answer casts (.other "<=") v hi == some true)).map (· != negated)) := by
  unfold QueryEnv.between
  split
  · rfl
  · next hnull =>
    simp only [Bool.or_eq_true, not_or, Bool.not_eq_true] at hnull
    simp only [answer, hnull]
    generalize (coercePair casts v lo).1.compare _ = low
    generalize (coercePair casts v hi).1.compare _ = high
    rcases low with _ | _ | _ | _ <;> rcases high with _ | _ | _ | _ <;> rfl

theorem ofTruth_inj {a b : Option Bool} : (ofTruth a : SqlValue C) = ofTruth b ↔ a = b := by
  refine ⟨fun h => ?_, fun h => h ▸ rfl⟩
  rw [← truthy_ofTruth (C := C) a, h, truthy_ofTruth]

theorem negate_ofTruth (b : Option Bool) :
    ofTruth (b.map (· != true)) = negate (ofTruth (b.map (· != false)) : SqlValue C) := by
  cases b with
  | none => rfl
  | some b => cases b <;> rfl

/-- **BETWEEN, IN, ANY and ALL are the AND and OR of their comparisons exactly if these
decide them.** NOT BETWEEN and NOT IN are always their negations. -/
theorem predicates_threeValued_iff (env : QueryEnv C) (casts : EvalEnv C) (v : SqlValue C) :
    (∀ lo hi, QueryEnv.between casts v lo hi true = negate (QueryEnv.between casts v lo hi false) ∧
      (QueryEnv.between casts v lo hi false = ofTruth (connect false
          (answer casts (.other ">=") v lo) (answer casts (.other "<=") v hi)) ↔
        BetweenDecided casts v lo hi)) ∧
    (∀ items, inValues casts v items true = (inValues casts v items false).map negate ∧
      (inValues casts v items false =
          .ok (ofTruth ((items.map (answer casts .eq v)).foldr (connect true) (some false))) ↔
        Decided casts true .eq v items)) ∧
    ∀ d op items, anyAll env casts d v op items =
        ofTruth ((items.map (answer casts op v)).foldr (connect d) (some !d)) ↔
      Decided casts d op v items := by
  refine ⟨fun lo hi => ⟨?_, ?_⟩, fun items => ⟨?_, ?_⟩, fun d op items => ?_⟩
  · rw [between_eq, between_eq, negate_ofTruth]
  · have hnone : (v.isNull || lo.isNull || hi.isNull) = true →
        answer casts (.other ">=") v lo = none ∨ answer casts (.other "<=") v hi = none := by
      grind [answer]
    rw [between_eq, ofTruth_inj, BetweenDecided]
    generalize answer casts (.other ">=") v lo = low at *
    generalize answer casts (.other "<=") v hi = high at *
    cases hnull : v.isNull || lo.isNull || hi.isNull with
    | true =>
      rcases hnone hnull with rfl | rfl
      · rcases high with _ | _ | _ <;> simp [connect]
      · rcases low with _ | _ | _ <;> simp [connect]
    | false => rcases low with _ | _ | _ <;> rcases high with _ | _ | _ <;> simp [connect]
  · rw [inValues_eq, inValues_eq, negate_ofTruth]
    rfl
  · rw [inValues_eq, ← decided_iff]
    simp [ofTruth_inj]
  · rw [← decided_iff, ← ofTruth_inj (C := C), anyAll]
    split
    · rfl
    · rw [quantifiedLoop_eq _ rfl]

end

/-- `5 BETWEEN 10 AND NULL` is NULL although `5 >= 10` is false, NULL is in no empty list,
and `NaN >= ALL ('{Infinity}')` is true although the two cannot be compared. -/
theorem predicates_ignore_answers :
    QueryEnv.between plainEnv (.int4 5) (.int4 10) .null false = .null ∧
    answer plainEnv (.other ">=") (.int4 5) (.int4 10) = some false ∧
    inValues plainEnv .null [] false = .ok .null ∧
    anyAll plainQueries plainEnv false (.float8 .nan) (.other ">=") [.float8 (.inf false)] =
      .bool true ∧
    answer plainEnv (.other ">=") (.float8 .nan) (.float8 (.inf false)) = none := by
  exact ⟨rfl, rfl, rfl, rfl, rfl⟩

end GuardianDb.Sql
