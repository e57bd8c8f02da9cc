/-
Queries over JSON documents (`matches_query` and the functions under it).

A query is an object: its fields are conditions on paths of the document or logical
operators over further queries. Objects are sorted maps, as lists of fields.

  * `eq_of_jsonEq` — values without floating-point numbers are equal only when they
    are the same.
  * `matchesObject_ok` — a document that is accepted meets each condition.
-/
import GuardianDb.Sql.Documents

namespace GuardianDb.Odm

open Sql (Json JsonNumber)
open BinaryFloat

/-- `OdmError`, as far as collections raise it. -/
inductive OdmError where
  | invalidQuery (message : String)
  | validation (field message : String)
  | duplicateKey (field value : String)
  deriving DecidableEq

/-! ### Values -/

/-- `Number::eq`: integers with integers, floating-point numbers with their like. -/
def numberEq : JsonNumber → JsonNumber → Bool
  | .int m, .int n => m == n
  | .nat m, .nat n => m == n
  | .float x, .float y => Flt.partialCmp (.fin x) (.fin y) == some .eq
  | _, _ => false

mutual

/-- `Value::eq`. -/
def jsonEq : Json → Json → Bool
  | .null, .null => true
  | .bool a, .bool b => a == b
  | .number m, .number n => numberEq m n
  | .string s, .string t => s == t
  | .array xs, .array ys => itemsEq xs ys
  | .object fs, .object gs => fieldsEq fs gs
  | _, _ => false

/-- `Vec::eq`. -/
def itemsEq : List Json → List Json → Bool
  | [], [] => true
  | x :: xs, y :: ys => jsonEq x y && itemsEq xs ys
  | _, _ => false

/-- `Map::eq`. -/
def fieldsEq : List (String × Json) → List (String × Json) → Bool
  | [], [] => true
  | (k, x) :: fs, (l, y) :: gs => k == l && jsonEq x y && fieldsEq fs gs
  | _, _ => false

end

mutual

/-- All numbers of the value are integers. -/
def Integral : Json → Prop
  | .number (.float _) => False
  | .array xs => IntegralItems xs
  | .object fs => IntegralFields fs
  | _ => True

/-- All numbers of the items are integers. -/
def IntegralItems : List Json → Prop
  | [] => True
  | x :: xs => Integral x ∧ IntegralItems xs

/-- All numbers of the fields are integers. -/
def IntegralFields : List (String × Json) → Prop
  | [] => True
  | (_, x) :: fs => Integral x ∧ IntegralFields fs

end

theorem numberEq_of_int {m n : JsonNumber} (hm : Integral (.number m)) (h : numberEq m n = true) :
    m = n := by
  cases m with
  | float x => exact absurd hm (by simp [Integral])
  | int | nat => cases n <;> simp_all [numberEq]

mutual

/-- Equal values without floating-point numbers are the same. -/
theorem eq_of_jsonEq : ∀ {x y : Json}, Integral x → jsonEq x y = true → x = y
  | .null, y, _, h => by cases y <;> first | rfl | cases h
  | .bool a, y, _, h => by
      cases y <;> first | exact congrArg Json.bool (beq_iff_eq.mp h) | cases h
  | .number m, y, hx, h => by
      cases y <;> first | exact congrArg Json.number (numberEq_of_int hx h) | cases h
  | .string s, y, _, h => by
      cases y <;> first | exact congrArg Json.string (beq_iff_eq.mp h) | cases h
  | .array xs, y, hx, h => by
      cases y with
      | array ys => exact congrArg Json.array (eq_of_itemsEq hx h)
      | _ => cases h
  | .object fs, y, hx, h => by
      cases y with
      | object gs => exact congrArg Json.object (eq_of_fieldsEq hx h)
      | _ => cases h

theorem eq_of_itemsEq : ∀ {xs ys : List Json}, IntegralItems xs → itemsEq xs ys = true → xs = ys
  | [], ys, _, h => by cases ys <;> first | rfl | cases h
  | x :: xs, ys, hx, h => by
      cases ys with
      | nil => cases h
      | cons y ys =>
        rw [itemsEq, Bool.and_eq_true] at h
        rw [eq_of_jsonEq hx.1 h.1, eq_of_itemsEq hx.2 h.2]

theorem eq_of_fieldsEq : ∀ {fs gs : List (String × Json)}, IntegralFields fs →
    fieldsEq fs gs = true → fs = gs
  | [], gs, _, h => by cases gs <;> first | rfl | cases h
  | (k, x) :: fs, gs, hx, h => by
      cases gs with
      | nil => cases h
      | cons g gs =>
        obtain ⟨l, y⟩ := g
        rw [fieldsEq, Bool.and_eq_true, Bool.and_eq_true, beq_iff_eq] at h
        rw [h.1.1, eq_of_jsonEq hx.1 h.1.2, eq_of_fieldsEq hx.2 h.2]

end

/-! ### Paths -/

/-- `as_object` and `get`. -/
def objectGet (j : Json) (key : String) : Option Json :=
  match j with
  | .object fields => fields.lookup key
  | _ => none

/-- `path.split('.')`. -/
def segments (path : String) : List String :=
  (path.toList.splitOn '.').map String.ofList

def valueAtPath (document : Json) (path : String) : Option Json :=
  (segments path).foldlM objectGet document

/-! ### Conditions -/

/-- `values_equal`: equal, or an array with an equal element. -/
def valuesEqual (actual expected : Json) : Bool :=
  jsonEq actual expected || match actual with
    | .array items => items.any (jsonEq · expected)
    | _ => false

/-- The order of two numbers or two strings. -/
def jsonOrdering : Json → Json → Option Ordering
  | .number m, .number n => Flt.partialCmp (Json.asF64 m) (Json.asF64 n)
  | .string s, .string t => some (compare s t)
  | _, _ => none

/-- `compare`. -/
def compareWith (actual : Option Json) (expected : Json) (predicate : Ordering → Bool) : Bool :=
  (actual.bind (jsonOrdering · expected)).any predicate

/-- `as_u64`. -/
def jsonAsU64 : Json → Option Nat
  | .number (.int n) => if 0 ≤ n.toInt then some n.toInt.toNat else none
  | .number (.nat n) => some n.toNat
  | _ => none

/-- The operand of `operator` as an array. -/
def arrayOperand (operator : String) : Json → Except OdmError (List Json)
  | .array items => .ok items
  | _ => .error (.invalidQuery (operator ++ " expects an array"))

/-- One operator of `matches_condition`. -/
def matchesOperator (actual : Option Json) (operator : String) (operand : Json) :
    Except OdmError Bool :=
  match operator with
  | "$eq" => .ok (actual.any (valuesEqual · operand))
  | "$ne" => .ok (actual.all (!valuesEqual · operand))
  | "$gt" => .ok (compareWith actual operand (· == .gt))
  | "$gte" => .ok (compareWith actual operand (· != .lt))
  | "$lt" => .ok (compareWith actual operand (· == .lt))
  | "$lte" => .ok (compareWith actual operand (· != .gt))
  | "$in" => do
      let values ← arrayOperand "$in" operand
      return actual.any fun value => values.any (valuesEqual value)
  | "$nin" => do
      let values ← arrayOperand "$nin" operand
      return actual.all fun value => values.all (!valuesEqual value ·)
  | "$exists" =>
      match operand with
      | .bool expected => .ok (actual.isSome == expected)
      | _ => .error (.invalidQuery "$exists expects a boolean")
  | "$size" =>
      match jsonAsU64 operand with
      | none => .error (.invalidQuery "$size expects a non-negative integer")
      | some expected => .ok <| actual.any fun value =>
          match value with
          | .array items => items.length == expected
          | _ => false
  | other => .error (.invalidQuery ("unsupported field operator `" ++ other ++ "`"))

/-- The loop of `matches_condition` over the operators; it ends at the first that fails. -/
def matchesOperators (actual : Option Json) : List (String × Json) → Except OdmError Bool
  | [] => .ok true
  | (operator, operand) :: rest => do
      if ← matchesOperator actual operator operand then matchesOperators actual rest
      else return false

/-- `starts_with('$')`. -/
def isOperator (key : String) : Bool := key.toList.head? == some '$'

def matchesCondition (actual : Option Json) (condition : Json) : Except OdmError Bool :=
  match condition with
  | .object operators =>
      if operators.any (isOperator ·.1) then matchesOperators actual operators
      else .ok (actual.any (valuesEqual · condition))
  | _ => .ok (actual.any (valuesEqual · condition))

/-! ### Queries -/

mutual

def matchesQuery (document : Json) : Json → Except OdmError Bool
  | .object query => matchesObject document query
  | _ => .error (.invalidQuery "query must be a JSON object")

/-- `matches_object`; the loop ends at the first field that does not match. -/
def matchesObject (document : Json) : List (String × Json) → Except OdmError Bool
  | [] => .ok true
  | (field, condition) :: rest => do
      if ← matchesField document field condition then matchesObject document rest
      else return false

/-- One field of `matches_object`. -/
def matchesField (document : Json) (field : String) : Json → Except OdmError Bool
  | .array clauses =>
      if field = "$and" then matchesAll document clauses
      else if field = "$or" then matchesAny document clauses
      else if field = "$nor" then (! ·) <$> matchesAny document clauses
      else if isOperator field then
        .error (.invalidQuery ("unsupported logical operator `" ++ field ++ "`"))
      else matchesCondition (valueAtPath document field) (.array clauses)
  | condition =>
      if field = "$and" ∨ field = "$or" ∨ field = "$nor" then
        .error (.invalidQuery (field ++ " expects an array"))
      else if isOperator field then
        .error (.invalidQuery ("unsupported logical operator `" ++ field ++ "`"))
      else matchesCondition (valueAtPath document field) condition

/-- The loop over the clauses of `$and`. -/
def matchesAll (document : Json) : List Json → Except OdmError Bool
  | [] => .ok true
  | clause :: rest => do
      if ← matchesQuery document clause then matchesAll document rest else return false

/-- The loop over the clauses of `$or` and of `$nor`, until one matches. -/
def matchesAny (document : Json) : List Json → Except OdmError Bool
  | [] => .ok false
  | clause :: rest => do
      if ← matchesQuery document clause then return true else matchesAny document rest

end

/-! ### Accepted documents -/

/-- The query evaluates to true. -/
def accepts (query document : Json) : Bool :=
  match matchesQuery document query with
  | .ok b => b
  | .error _ => false

theorem accepts_iff {query document : Json} :
    accepts query document = true ↔ matchesQuery document query = .ok true := by
  rw [accepts]
  cases matchesQuery document query with
  | ok b => cases b <;> simp
  | error e => simp

/-- An accepted document meets every field of the query. -/
theorem matchesObject_ok {document : Json} : ∀ {query : List (String × Json)},
    matchesObject document query = .ok true →
      ∀ p ∈ query, matchesField document p.1 p.2 = .ok true
  | [], _, p, hp => by cases hp
  | (field, condition) :: rest, h, p, hp => by
      rw [matchesObject] at h
      obtain ⟨b, hfield, h⟩ := Fallible.except_bind_ok.mp h
      cases b with
      | false => cases h
      | true =>
        obtain rfl | hp := List.mem_cons.mp hp
        · exact hfield
        · exact matchesObject_ok h p hp

/-- A field that is no operator is a condition on the value at its path. -/
theorem matchesField_eq {document : Json} {field : String} (hfield : isOperator field = false)
    (condition : Json) : matchesField document field condition =
      matchesCondition (valueAtPath document field) condition := by
  have hand : field ≠ "$and" := by rintro rfl; cases hfield
  have hor : field ≠ "$or" := by rintro rfl; cases hfield
  have hnor : field ≠ "$nor" := by rintro rfl; cases hfield
  cases condition <;>
    simp [matchesField, hand, hor, hnor, hfield]

/-! ### Integers along a path -/

theorem IntegralFields.lookup {key : String} {j : Json} : ∀ {fields : List (String × Json)},
    IntegralFields fields → fields.lookup key = some j → Integral j
  | [], _, h => by cases h
  | (k, x) :: fs, hfs, h => by
      rw [List.lookup_cons] at h
      split at h
      · exact Option.some.inj h ▸ hfs.1
      · exact IntegralFields.lookup hfs.2 h

theorem IntegralItems.mem {x : Json} : ∀ {xs : List Json}, IntegralItems xs → x ∈ xs → Integral x
  | [], _, h => by cases h
  | y :: ys, hys, h => by
      obtain rfl | h := List.mem_cons.mp h
      · exact hys.1
      · exact IntegralItems.mem hys.2 h

theorem integral_objectGet {j v : Json} {key : String} (hj : Integral j)
    (h : objectGet j key = some v) : Integral v := by
  cases j with
  | object fields => exact IntegralFields.lookup hj h
  | _ => cases h

theorem integral_foldlM {v : Json} : ∀ {path : List String} {j : Json}, Integral j →
    path.foldlM objectGet j = some v → Integral v
  | [], j, hj, h => Option.some.inj h ▸ hj
  | key :: path, j, hj, h => by
      rw [List.foldlM_cons] at h
      obtain ⟨j', hget, hrest⟩ := Option.bind_eq_some_iff.mp h
      exact integral_foldlM (integral_objectGet hj hget) hrest

end GuardianDb.Odm
