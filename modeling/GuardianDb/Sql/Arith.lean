/-
Numeric literals, integer arithmetic, and assignment to a `bigint` column.

Literals and expressions are evaluated to values first (`parse_number`, `unary`,
`arith`); the assignment then casts the value through an `f64`. Machine
arithmetic in `unary` depends on the build: with overflow checks negating the
smallest integer panics, without them it wraps.

  * `IntExpr.eval_exact` — evaluation without a wrapped negation is exact.
  * `bigint_assignment_iff` — which integers reach the column unchanged, and
    which integers outside its range are refused.
-/
import GuardianDb.Lib.Fallible
import GuardianDb.Relational.Cast

namespace GuardianDb.Sql

open BinaryFloat Rounding Relational

/-- How the evaluation of a statement ends early. -/
inductive Failure where
  | error (e : RelError)
  | panic
deriving DecidableEq

/-! ### Literals -/

/-- `str::parse` for a signed machine integer with the given bounds. -/
def parseSigned (lo hi : Int) (s : String) : Option Int :=
  let (neg, cs) := splitSign s.toList
  let n := Nat.ofDigitChars 10 cs 0
  let z : Int := if neg then -n else n
  if !cs.isEmpty && cs.all Char.isDigit && decide (lo ≤ z ∧ z ≤ hi) then some z else none

/-- `parse_number`: the type of a numeric literal is the first that holds it. -/
def parseNumber (C : Crates) (s : String) : Except RelError (SqlValue C) :=
  let isIntegral := !s.toList.any fun c => c == '.' || c == 'e' || c == 'E'
  let integral := fun lo hi => if isIntegral then parseSigned lo hi s else none
  match integral Int32.minValue.toInt Int32.maxValue.toInt with
  | some i => .ok (.int4 (Int32.ofInt i))
  | none =>
    match integral Int64.minValue.toInt Int64.maxValue.toInt with
    | some i => .ok (.int8 (Int64.ofInt i))
    | none =>
      match C.decimalFromStr s with
      | some d => .ok (.numeric d)
      | none =>
        match parse binary64 s with
        | some x => .ok (.float8 x)
        | none => .error (.invalidTextRepresentation "numeric" s)

section
variable {C : Crates}

/-! ### Operators -/

inductive UnaryOp where
  | plus
  | minus
  | not
  | other (symbol : String)

/-- Negation of a machine integer; `checks` is the build's overflow checking. -/
def negChecked {α : Type} [DecidableEq α] [Neg α] (checks : Bool) (smallest n : α) :
    Except Failure α :=
  if checks && decide (n = smallest) then .error .panic else .ok (-n)

def truthy : SqlValue C → Option Bool
  | .bool b => some b
  | _ => none

def unary (checks : Bool) (op : UnaryOp) (v : SqlValue C) : Except Failure (SqlValue C) :=
  if v.isNull then .ok .null
  else
    match op with
    | .plus => .ok v
    | .minus =>
      match v with
      | .int2 n => (negChecked checks Int16.minValue n).map .int2
      | .int4 n => (negChecked checks Int32.minValue n).map .int4
      | .int8 n => (negChecked checks Int64.minValue n).map .int8
      | .float4 x => .ok (.float4 x.negate)
      | .float8 x => .ok (.float8 x.negate)
      | .numeric d => .ok (.numeric d.negate)
      | v => .error (.error (.cannotCoerce v.typeOf.name "numeric"))
    | .not => .ok (match truthy v with | some b => .bool (!b) | none => .null)
    | .other symbol =>
      .error (.error (.featureNotSupported s!"unary operator {symbol} not supported"))

inductive ArithOp where
  | plus
  | minus
  | multiply
  | divide
  | modulo
  | pgExp
deriving DecidableEq

/-- `fit_int`: the narrowest of `integer` and `bigint` that holds the result. -/
def fitInt (r : Int) : Except Failure (SqlValue C) :=
  if Int32.minValue.toInt ≤ r ∧ r ≤ Int32.maxValue.toInt then .ok (.int4 (Int32.ofInt r))
  else if Int64.minValue.toInt ≤ r ∧ r ≤ Int64.maxValue.toInt then .ok (.int8 (Int64.ofInt r))
  else .error (.error (.numericValueOutOfRange "bigint"))

/-- The integer branch of `arith`, before the result is fitted to a type. -/
def intArith : ArithOp → Int → Int → Except Failure Int
  | .plus, x, y => .ok (x + y)
  | .minus, x, y => .ok (x - y)
  | .multiply, x, y => .ok (x * y)
  | .divide, x, y => if y = 0 then .error (.error .divisionByZero) else .ok (x.tdiv y)
  | .modulo, x, y => if y = 0 then .error (.error .divisionByZero) else .ok (x.tmod y)
  | .pgExp, _, _ => .error (.error (.featureNotSupported "operator"))

/-- The floating-point branch of `arith`. -/
def floatArith (C : Crates) : ArithOp → F64 → F64 → Except Failure F64
  | .plus, x, y => .ok (x.add y)
  | .minus, x, y => .ok (x.sub y)
  | .multiply, x, y => .ok (x.mul y)
  | .divide, x, y => if y.isZero then .error (.error .divisionByZero) else .ok (x.div y)
  | .modulo, x, y => .ok (x.rem y)
  | .pgExp, x, y => .ok (C.powf x y)

/-- The decimal branch of `arith`; powers leave the decimals. -/
def decimalArith (C : Crates) (op : ArithOp) (x y : Decimal) : Except Failure (SqlValue C) :=
  let checked := fun (r : Option Decimal) =>
    match r with
    | some d => .ok (.numeric d)
    | none => .error .panic
  let nonzero := fun r =>
    if y.coeff = 0 then .error (.error .divisionByZero) else checked r
  match op with
  | .plus => checked (C.decimalAdd x y)
  | .minus => checked (C.decimalSub x y)
  | .multiply => checked (C.decimalMul x y)
  | .divide => nonzero (C.decimalDiv x y)
  | .modulo => nonzero (C.decimalRem x y)
  | .pgExp =>
    let zero : F64 := .ofInt binary64 0
    .ok (.float8 (C.powf ((C.decimalToF64 x).getD zero) ((C.decimalToF64 y).getD zero)))

def isFloat : SqlValue C → Bool
  | .float4 _ | .float8 _ => true
  | _ => false

def coerceErr (v : SqlValue C) : Failure := .error (.cannotCoerce v.typeOf.name "numeric")

def arith (a : SqlValue C) (op : ArithOp) (b : SqlValue C) : Except Failure (SqlValue C) :=
  if a.isNull || b.isNull then .ok .null
  else if a.typeOf.isInteger && b.typeOf.isInteger then
    match a.asI64, b.asI64 with
    | some x, some y =>
      match intArith op x.toInt y.toInt with
      | .ok r => fitInt r
      | .error e => .error e
    | _, _ => .error .panic
  else if isFloat a || isFloat b then
    match a.asF64, b.asF64 with
    | none, _ => .error (coerceErr a)
    | _, none => .error (coerceErr b)
    | some x, some y => (floatArith C op x y).map .float8
  else
    match a.asDecimal, b.asDecimal with
    | none, _ => .error (coerceErr a)
    | _, none => .error (coerceErr b)
    | some x, some y => decimalArith C op x y

inductive BitOp where
  | and
  | or
  | xor

def BitOp.apply : BitOp → Int64 → Int64 → Int64
  | .and, x, y => x &&& y
  | .or, x, y => x ||| y
  | .xor, x, y => x ^^^ y

def bitwise (a : SqlValue C) (op : BitOp) (b : SqlValue C) : Except Failure (SqlValue C) :=
  if a.isNull || b.isNull then .ok .null
  else
    match a.asI64, b.asI64 with
    | none, _ => .error (coerceErr a)
    | _, none => .error (coerceErr b)
    | some x, some y => fitInt (op.apply x y).toInt

/-! ### Integer values -/

/-- `v` is the integer `z` in one of the three integer types. -/
inductive IntValue : SqlValue C → Int → Prop
  | int2 (n : Int16) : IntValue (.int2 n) n.toInt
  | int4 (n : Int32) : IntValue (.int4 n) n.toInt
  | int8 (n : Int64) : IntValue (.int8 n) n.toInt

namespace IntValue

variable {v : SqlValue C} {z : Int}

theorem of_int4 {n : Int32} (h : n.toInt = z) : IntValue (C := C) (.int4 n) z := h ▸ .int4 n

theorem of_int8 {n : Int64} (h : n.toInt = z) : IntValue (C := C) (.int8 n) z := h ▸ .int8 n

section
variable (h : IntValue v z)
include h

theorem inI64 : InI64 z := by
  unfold InI64
  cases h with
  | int2 n | int4 n =>
    have hlo := n.le_toInt
    have hhi := n.toInt_lt
    omega
  | int8 n => exact ⟨n.le_toInt, n.toInt_lt⟩

theorem asI64 : ∃ i : Int64, v.asI64 = some i ∧ i.toInt = z := by
  cases h with
  | int2 n | int4 n => exact ⟨_, rfl, n.toInt_toInt64⟩
  | int8 n => exact ⟨_, rfl, rfl⟩

theorem isNull : v.isNull = false := by
  cases h <;> rfl

theorem isInteger : v.typeOf.isInteger = true := by
  cases h <;> rfl

theorem source : integerSource .bigInt v = .ok (.ofInt binary64 z) := by
  cases h <;> rfl

end

end IntValue

variable {v : SqlValue C}

theorem fitInt_ok {r : Int} (h : fitInt r = .ok v) : IntValue v r := by
  unfold fitInt at h
  rw [show Int32.maxValue.toInt = 2 ^ 31 - 1 by decide,
    show Int64.maxValue.toInt = 2 ^ 63 - 1 by decide] at h
  split at h
  · rename_i hr
    cases h
    exact .of_int4 (Int32.toInt_ofInt_of_le hr.1 (by omega))
  · split at h
    · rename_i hr
      cases h
      exact .of_int8 (Int64.toInt_ofInt_of_le hr.1 (by omega))
    · cases h

variable {a b : SqlValue C} {x y : Int}

theorem arith_of_intValue (ha : IntValue a x) (hb : IntValue b y) (op : ArithOp) :
    arith a op b = (intArith op x y).bind fitInt := by
  obtain ⟨i, hi, rfl⟩ := ha.asI64
  obtain ⟨j, hj, rfl⟩ := hb.asI64
  unfold arith
  simp only [ha.isNull, hb.isNull, ha.isInteger, hb.isInteger, hi, hj, Bool.or_self,
    Bool.and_self, Bool.false_eq_true, if_true, if_false]
  cases intArith op i.toInt j.toInt <;> rfl

theorem bitwise_of_intValue (ha : IntValue a x) (hb : IntValue b y) (op : BitOp) :
    bitwise a op b = fitInt (op.apply (Int64.ofInt x) (Int64.ofInt y)).toInt := by
  obtain ⟨i, hi, rfl⟩ := ha.asI64
  obtain ⟨j, hj, rfl⟩ := hb.asI64
  unfold bitwise
  simp [ha.isNull, hb.isNull, hi, hj]

/-! ### Integer expressions -/

/-- Expressions over integer columns, parameters and literals. -/
inductive IntExpr where
  | int2 (n : Int16)
  | int4 (n : Int32)
  | int8 (n : Int64)
  | plus (e : IntExpr)
  | minus (e : IntExpr)
  | arith (a : IntExpr) (op : ArithOp) (b : IntExpr)
  | bitwise (a : IntExpr) (op : BitOp) (b : IntExpr)

namespace IntExpr

/-- Evaluation, operand by operand. -/
def eval (C : Crates) (checks : Bool) : IntExpr → Except Failure (SqlValue C)
  | .int2 n => .ok (.int2 n)
  | .int4 n => .ok (.int4 n)
  | .int8 n => .ok (.int8 n)
  | .plus e => (e.eval C checks).bind (unary checks .plus)
  | .minus e => (e.eval C checks).bind (unary checks .minus)
  | .arith a op b =>
    (a.eval C checks).bind fun x => (b.eval C checks).bind fun y => Sql.arith x op y
  | .bitwise a op b =>
    (a.eval C checks).bind fun x => (b.eval C checks).bind fun y => Sql.bitwise x op y

/-- The integer an expression denotes; none where an operation has no result. -/
def exact : IntExpr → Option Int
  | .int2 n => some n.toInt
  | .int4 n => some n.toInt
  | .int8 n => some n.toInt
  | .plus e => e.exact
  | .minus e => e.exact.map fun z => -z
  | .arith a op b => do (intArith op (← a.exact) (← b.exact)).toOption
  | .bitwise a op b => do
    some (op.apply (Int64.ofInt (← a.exact)) (Int64.ofInt (← b.exact))).toInt

/-- Somewhere the smallest integer of a type is negated without a check. -/
def Wraps (C : Crates) (checks : Bool) : IntExpr → Prop
  | .int2 _ | .int4 _ | .int8 _ => False
  | .plus e => e.Wraps C checks
  | .minus e => e.Wraps C checks ∨ (checks = false ∧
      (e.eval C checks = .ok (.int2 Int16.minValue) ∨
        e.eval C checks = .ok (.int4 Int32.minValue) ∨
        e.eval C checks = .ok (.int8 Int64.minValue)))
  | .arith a _ b | .bitwise a _ b => a.Wraps C checks ∨ b.Wraps C checks

variable {α : Type} {checks : Bool}

theorem negChecked_ok [DecidableEq α] [Neg α] {smallest n r : α}
    (hsafe : checks = false → n ≠ smallest) (h : negChecked checks smallest n = .ok r) :
    n ≠ smallest ∧ r = -n := by
  unfold negChecked at h
  split at h
  · cases h
  · grind

/-- Negation that neither panics nor wraps. -/
theorem unary_minus_exact {w v : SqlValue C} {z : Int} (hw : IntValue w z)
    (hsafe : checks = false → w ≠ .int2 Int16.minValue ∧ w ≠ .int4 Int32.minValue ∧
      w ≠ .int8 Int64.minValue) (h : unary checks .minus w = .ok v) : IntValue v (-z) := by
  cases hw with
  | int2 n =>
    obtain ⟨r, hr, rfl⟩ := Fallible.except_map_ok.mp h
    obtain ⟨hne, rfl⟩ := negChecked_ok (fun hc => by simpa using (hsafe hc).1) hr
    have hneg : (-n).toInt = -n.toInt :=
      BitVec.toInt_neg_of_ne_intMin fun hmin => hne (Int16.toBitVec_inj.mp hmin)
    exact hneg ▸ IntValue.int2 (-n)
  | int4 n =>
    obtain ⟨r, hr, rfl⟩ := Fallible.except_map_ok.mp h
    obtain ⟨hne, rfl⟩ := negChecked_ok (fun hc => by simpa using (hsafe hc).2.1) hr
    have hneg : (-n).toInt = -n.toInt :=
      BitVec.toInt_neg_of_ne_intMin fun hmin => hne (Int32.toBitVec_inj.mp hmin)
    exact hneg ▸ IntValue.int4 (-n)
  | int8 n =>
    obtain ⟨r, hr, rfl⟩ := Fallible.except_map_ok.mp h
    obtain ⟨hne, rfl⟩ := negChecked_ok (fun hc => by simpa using (hsafe hc).2.2) hr
    have hneg : (-n).toInt = -n.toInt :=
      BitVec.toInt_neg_of_ne_intMin fun hmin => hne (Int64.toBitVec_inj.mp hmin)
    exact hneg ▸ IntValue.int8 (-n)

/-- **Evaluation is exact.** Without a wrapped negation, a result is the integer
that the expression denotes. -/
theorem eval_exact {e : IntExpr} : ∀ {z : Int} {v : SqlValue C},
    e.exact = some z → ¬ e.Wraps C checks → e.eval C checks = .ok v → IntValue v z := by
  induction e with
  | int2 n =>
    intro z v hz _ hv
    cases hz
    cases hv
    exact .int2 n
  | int4 n =>
    intro z v hz _ hv
    cases hz
    cases hv
    exact .int4 n
  | int8 n =>
    intro z v hz _ hv
    cases hz
    cases hv
    exact .int8 n
  | plus e ih =>
    intro z v hz hw hv
    obtain ⟨w, hew, huw⟩ := Fallible.except_bind_ok.mp hv
    have hint := ih hz hw hew
    unfold unary at huw
    rw [if_neg (by simp [hint.isNull])] at huw
    cases huw
    exact hint
  | minus e ih =>
    intro z v hz hw hv
    obtain ⟨y, hy, rfl⟩ := Option.map_eq_some_iff.mp hz
    obtain ⟨w, hew, huw⟩ := Fallible.except_bind_ok.mp hv
    simp only [Wraps, not_or, not_and] at hw
    apply unary_minus_exact (ih hy hw.1 hew) _ huw
    intro hchecks
    have hne := hw.2 hchecks
    rw [hew] at hne
    simpa only [Except.ok.injEq] using hne
  | arith a op b iha ihb =>
    intro z v hz hw hv
    obtain ⟨x, hx, y, hy, hop⟩ : ∃ x, a.exact = some x ∧ ∃ y, b.exact = some y ∧
        intArith op x y = .ok z := by
      simp only [exact, bind, Option.bind_eq_some_iff] at hz
      obtain ⟨x, hx, y, hy, hop⟩ := hz
      cases hr : intArith op x y with
      | error e => simp [hr, Except.toOption] at hop
      | ok r => exact ⟨x, hx, y, hy, by simpa [hr, Except.toOption] using hop⟩
    obtain ⟨va, hva, hrest⟩ := Fallible.except_bind_ok.mp hv
    obtain ⟨vb, hvb, harith⟩ := Fallible.except_bind_ok.mp hrest
    simp only [Wraps, not_or] at hw
    rw [arith_of_intValue (iha hx hw.1 hva) (ihb hy hw.2 hvb), hop] at harith
    exact fitInt_ok harith
  | bitwise a op b iha ihb =>
    intro z v hz hw hv
    obtain ⟨x, hx, y, hy, rfl⟩ : ∃ x, a.exact = some x ∧ ∃ y, b.exact = some y ∧
        (op.apply (Int64.ofInt x) (Int64.ofInt y)).toInt = z := by
      simpa only [exact, bind, Option.bind_eq_some_iff, Option.some.injEq] using hz
    obtain ⟨va, hva, hrest⟩ := Fallible.except_bind_ok.mp hv
    obtain ⟨vb, hvb, hbit⟩ := Fallible.except_bind_ok.mp hrest
    simp only [Wraps, not_or] at hw
    rw [bitwise_of_intValue (iha hx hw.1 hva) (ihb hy hw.2 hvb)] at hbit
    exact fitInt_ok hbit

end IntExpr

/-! ### Literals as values -/

variable {s : String}

theorem parseSigned_digits (hs : IsDigits s) (lo hi : Int) :
    parseSigned lo hi s =
      if lo ≤ digitsValue s ∧ (digitsValue s : Int) ≤ hi then some (digitsValue s : Int)
      else none := by
  have hne : s.toList.isEmpty = false := by
    rw [List.isEmpty_eq_false_iff]
    exact fun hnil => hs.1 (String.toList_eq_nil_iff.mp hnil)
  have hall : s.toList.all Char.isDigit = true := List.all_eq_true.mpr hs.2
  unfold parseSigned
  simp only [splitSign_digits hs.2, hne, hall, Bool.not_false, Bool.true_and,
    decide_eq_true_eq, Bool.false_eq_true, if_false]
  rfl

/-- The value of a literal of digits, by size. -/
theorem parseNumber_digits (hs : IsDigits s) :
    parseNumber C s =
      if digitsValue s < 2 ^ 31 then .ok (.int4 (Int32.ofInt (digitsValue s)))
      else if digitsValue s < 2 ^ 63 then .ok (.int8 (Int64.ofInt (digitsValue s)))
      else if h : digitsValue s < 2 ^ 96 then .ok (.numeric (.ofInt (digitsValue s) h))
      else .ok (.float8 (.ofInt binary64 (digitsValue s))) := by
  have hintegral : (s.toList.any fun c => c == '.' || c == 'e' || c == 'E') = false := by
    rw [List.any_eq_false]
    intro c hc hbad
    have hdigit := hs.2 c hc
    simp only [Bool.or_eq_true, beq_iff_eq] at hbad
    rcases hbad with (rfl | rfl) | rfl <;> exact absurd hdigit (by decide)
  unfold parseNumber
  simp only [hintegral, Bool.not_false, if_true, parseSigned_digits hs]
  rw [show Int32.minValue.toInt = -2 ^ 31 by decide,
    show Int32.maxValue.toInt = 2 ^ 31 - 1 by decide,
    show Int64.minValue.toInt = -2 ^ 63 by decide,
    show Int64.maxValue.toInt = 2 ^ 63 - 1 by decide]
  by_cases h31 : digitsValue s < 2 ^ 31
  · rw [if_pos h31, if_pos (by omega)]
  rw [if_neg h31, if_neg (by omega)]
  by_cases h63 : digitsValue s < 2 ^ 63
  · rw [if_pos h63, if_pos (by omega)]
  rw [if_neg h63, if_neg (by omega)]
  by_cases h96 : digitsValue s < 2 ^ 96
  · rw [dif_pos h96]
    simp only [C.decimalFromStr_digits s hs h96]
  · rw [dif_neg h96]
    simp only [C.decimalFromStr_overflow s hs (Nat.le_of_not_lt h96),
      parse_digits binary64 hs.1 hs.2]
    rfl

/-- A literal with an optional minus sign, which is a unary operator. -/
def literal (C : Crates) (checks neg : Bool) (s : String) : Except Failure (SqlValue C) :=
  match parseNumber C s with
  | .ok v => if neg then unary checks .minus v else .ok v
  | .error e => .error (.error e)

/-- The integer written by a signed literal. -/
def literalInt (neg : Bool) (s : String) : Int :=
  if neg then -(digitsValue s : Int) else digitsValue s

theorem negChecked_of_ne {α : Type} [DecidableEq α] [Neg α] {smallest n : α} (checks : Bool)
    (h : n ≠ smallest) : negChecked checks smallest n = .ok (-n) := by
  unfold negChecked
  simp [h]

variable {z : Int}

/-- A literal that has an integer type is negated exactly. -/
theorem unary_minus_of_nonneg (checks : Bool) (hv : IntValue v z) (hz : 0 ≤ z) :
    ∃ w, unary checks .minus v = .ok w ∧ IntValue w (-z) := by
  have hne : v ≠ .int2 Int16.minValue ∧ v ≠ .int4 Int32.minValue ∧ v ≠ .int8 Int64.minValue := by
    refine ⟨?_, ?_, ?_⟩ <;> rintro rfl <;> cases hv <;> exact absurd hz (by decide)
  obtain ⟨w, hw⟩ : ∃ w, unary checks .minus v = .ok w := by
    cases hv with
    | int2 n =>
      have hn : n ≠ Int16.minValue := by simpa using hne.1
      exact ⟨.int2 (-n), congrArg (Except.map SqlValue.int2) (negChecked_of_ne checks hn)⟩
    | int4 n =>
      have hn : n ≠ Int32.minValue := by simpa using hne.2.1
      exact ⟨.int4 (-n), congrArg (Except.map SqlValue.int4) (negChecked_of_ne checks hn)⟩
    | int8 n =>
      have hn : n ≠ Int64.minValue := by simpa using hne.2.2
      exact ⟨.int8 (-n), congrArg (Except.map SqlValue.int8) (negChecked_of_ne checks hn)⟩
  exact ⟨w, hw, IntExpr.unary_minus_exact hv (fun _ => hne) hw⟩

/-- A signed literal of an integer type, as the source of a cast. -/
theorem signed_source {n : Nat} (checks neg : Bool) (hv : IntValue v n) :
    ∃ w, (if neg then unary checks .minus v else .ok v) = .ok w ∧ w.isNull = false ∧
      integerSource .bigInt w = .ok (.ofInt binary64 (if neg then -(n : Int) else n)) := by
  cases neg with
  | false => exact ⟨v, rfl, hv.isNull, hv.source⟩
  | true =>
    obtain ⟨w, hw, hint⟩ := unary_minus_of_nonneg checks hv (by omega)
    exact ⟨w, hw, hint.isNull, hint.source⟩

/-- A decimal integer, as the source of a cast. -/
theorem decimal_source {d : Decimal} (h : Decimal.IsInt d z) :
    integerSource (C := C) .bigInt (.numeric d) = .ok (.ofInt binary64 z) := by
  unfold integerSource
  simp only [SqlValue.asF64, C.decimalToF64_int d z h]

/-- Whatever the size of a literal, its cast to `bigint` starts from the integer
it writes, rounded to an `f64`. -/
theorem literal_source (hs : IsDigits s) (checks neg : Bool) :
    ∃ v : SqlValue C, literal C checks neg s = .ok v ∧ v.isNull = false ∧
      integerSource .bigInt v = .ok (.ofInt binary64 (literalInt neg s)) := by
  unfold literal literalInt
  rw [parseNumber_digits hs]
  generalize digitsValue s = n
  -- one case for each type a literal can have
  by_cases h31 : n < 2 ^ 31
  · simp only [if_pos h31]
    exact signed_source checks neg
      (.of_int4 (Int32.toInt_ofInt_of_le (by omega) (by omega)))
  by_cases h63 : n < 2 ^ 63
  · simp only [if_neg h31, if_pos h63]
    exact signed_source checks neg
      (.of_int8 (Int64.toInt_ofInt_of_le (by omega) (by omega)))
  by_cases h96 : n < 2 ^ 96
  · simp only [if_neg h31, if_neg h63, dif_pos h96]
    cases neg with
    | false =>
      refine ⟨_, rfl, rfl, decimal_source ⟨rfl, ?_, ?_⟩⟩
      · rfl
      · rfl
    | true =>
      refine ⟨_, rfl, rfl, decimal_source ⟨rfl, ?_, ?_⟩⟩
      · exact (Int.natAbs_neg n).symm
      · grind [FixedDecimal.negate, FixedDecimal.ofInt]
  · simp only [if_neg h31, if_neg h63, dif_neg h96]
    cases neg with
    | false => exact ⟨_, rfl, rfl, rfl⟩
    | true =>
      refine ⟨_, rfl, rfl, ?_⟩
      exact congrArg Except.ok (Flt.negate_ofInt (by omega))

/-! ### Assignment to a `bigint` column -/

/-- What an INSERT or UPDATE stores in a `bigint` column for an evaluated value. -/
def assignBigInt (castOther : SqlValue C → SqlType → Except RelError (SqlValue C))
    (column : String) (r : Except Failure (SqlValue C)) : Except Failure (SqlValue C) :=
  r.bind fun v => (coerceTo castOther v .bigInt column).mapError .error

/-- The integer `z` is stored exactly, or refused if it is out of range. -/
def Settled (z : Int) (r : Except Failure (SqlValue C)) : Prop :=
  if InI64 z then r = .ok (.int8 (Int64.ofInt z)) else ∃ e, r = .error e

/-- The integers that survive: at most 53 significant bits (or the largest one)
within the range, more than 1024 away from the range outside it. -/
def Survives (z : Int) : Prop :=
  if InI64 z then Fits 53 z.natAbs ∨ z = 2 ^ 63 - 1 else 2 ^ 63 + 1024 < z.natAbs

variable (castOther : SqlValue C → SqlType → Except RelError (SqlValue C))

theorem assignBigInt_ok (column : String) (hv : v.isNull = false) :
    (∀ w, assignBigInt castOther column (.ok v) = .ok w ↔ castInteger .bigInt v = .ok w) ∧
      ((∃ e, assignBigInt castOther column (.ok v) = .error e) ↔
        ∃ e, castInteger .bigInt v = .error e) := by
  have hcoerce : coerceTo castOther v .bigInt column =
      (castInteger .bigInt v).mapError
        fun _ => .datatypeMismatch column (SqlType.name .bigInt) v.typeOf.name := by
    unfold coerceTo Relational.cast
    simp only [hv, Bool.false_eq_true, if_false]
    cases castInteger .bigInt v <;> rfl
  unfold assignBigInt
  simp only [Except.bind, hcoerce]
  cases castInteger .bigInt v with
  | ok | error => simp [Except.mapError]

theorem settled_iff_survives (column : String) (hv : v.isNull = false)
    (hsrc : integerSource .bigInt v = .ok (.ofInt binary64 z)) :
    Settled z (assignBigInt castOther column (.ok v)) ↔ Survives z := by
  obtain ⟨hok, herr⟩ := assignBigInt_ok castOther column hv
  unfold Settled Survives
  by_cases hz : InI64 z
  · rw [if_pos hz, if_pos hz, hok, castInteger_stores_iff hsrc hz]
  · rw [if_neg hz, if_neg hz, herr, castInteger_rejects_iff hsrc hz]

/-- The smallest integers are powers of two, so the cast keeps them. -/
theorem survives_of_smallest (hv : IntValue v z)
    (hmin : v = .int2 Int16.minValue ∨ v = .int4 Int32.minValue ∨ v = .int8 Int64.minValue) :
    z < 0 ∧ Fits 53 z.natAbs ∧ unary false .minus v = .ok v := by
  rcases hmin with rfl | rfl | rfl <;> cases hv <;> exact ⟨by decide, by decide +kernel, rfl⟩

/-- The first wrapped negation of an expression changes the stored value. -/
theorem not_settled_of_wraps
    (column : String) {checks : Bool} {e : IntExpr} (he : ¬ e.Wraps C checks)
    (hw : (IntExpr.minus e).Wraps C checks) (hz : (IntExpr.minus e).exact = some z) :
    ¬ Settled z (assignBigInt castOther column ((IntExpr.minus e).eval C checks)) := by
  obtain ⟨y, hy, rfl⟩ := Option.map_eq_some_iff.mp hz
  obtain ⟨hchecks, hmin⟩ := hw.resolve_left he
  subst hchecks
  obtain ⟨v, hv, hsmall⟩ : ∃ v, e.eval C false = .ok v ∧
      (v = .int2 Int16.minValue ∨ v = .int4 Int32.minValue ∨ v = .int8 Int64.minValue) := by grind
  have hint := IntExpr.eval_exact hy he hv
  obtain ⟨hneg, hfits, hsame⟩ := survives_of_smallest hint hsmall
  have heval : (IntExpr.minus e).eval C false = .ok v := by
    simp only [IntExpr.eval, hv, Except.bind, hsame]
  have hstored : assignBigInt castOther column (.ok v) = .ok (.int8 (Int64.ofInt y)) := by
    rw [(assignBigInt_ok castOther column hint.isNull).1]
    exact (castInteger_stores_iff hint.source hint.inI64).mpr (.inl hfits)
  rw [heval]
  unfold Settled
  rw [hstored]
  split
  · rename_i hrange
    intro heq
    have hy64 := hint.inI64
    have hto := congrArg Int64.toInt (SqlValue.int8.inj (Except.ok.inj heq))
    rw [Int64.toInt_ofInt_of_le hy64.1 hy64.2, Int64.toInt_ofInt_of_le hrange.1 hrange.2] at hto
    omega
  · rintro ⟨f, hf⟩
    cases hf

end

/-- **What reaches a `bigint` column.** An integer value, a literal of any size and
an expression whose evaluation does not wrap are stored exactly, or refused when
out of range, if and only if the integer `Survives`; an expression out of range
is always refused by the evaluation itself, unless a negation wraps, and the
first wrapped negation always stores another number. -/
theorem bigint_assignment_iff (C : Crates)
    (castOther : SqlValue C → SqlType → Except RelError (SqlValue C)) (column : String)
    (checks : Bool) :
    (∀ v z, IntValue v z →
      (Settled z (assignBigInt castOther column (.ok v)) ↔ Survives z)) ∧
    (∀ neg s, IsDigits s →
      (Settled (literalInt neg s) (assignBigInt castOther column (literal C checks neg s)) ↔
        Survives (literalInt neg s))) ∧
    (∀ (e : IntExpr) (z : Int), e.exact = some z → ¬ e.Wraps C checks →
      (¬ InI64 z → ∃ f, assignBigInt castOther column (e.eval C checks) = .error f) ∧
      (∀ v, e.eval C checks = .ok v →
        (Settled z (assignBigInt castOther column (e.eval C checks)) ↔ Survives z))) ∧
    (∀ (e : IntExpr) (z : Int), ¬ e.Wraps C checks → (IntExpr.minus e).Wraps C checks →
      (IntExpr.minus e).exact = some z →
      ¬ Settled z (assignBigInt castOther column ((IntExpr.minus e).eval C checks))) := by
  refine ⟨?_, ?_, ?_, ?_⟩
  · intro v z hv
    exact settled_iff_survives castOther column hv.isNull hv.source
  · intro neg s hs
    obtain ⟨v, hlit, hnull, hsrc⟩ := literal_source (C := C) hs checks neg
    rw [hlit]
    exact settled_iff_survives castOther column hnull hsrc
  · intro e z hz hwraps
    constructor
    · intro hrange
      cases hev : e.eval C checks with
      | error f => exact ⟨f, rfl⟩
      | ok v => exact absurd (IntExpr.eval_exact hz hwraps hev).inI64 hrange
    · intro v hev
      have hint := IntExpr.eval_exact hz hwraps hev
      rw [hev]
      exact settled_iff_survives castOther column hint.isNull hint.source
  · intro e z he hw hz
    exact not_settled_of_wraps castOther column he hw hz

/-- Assigning `2^53 + 1` stores `2^53`, and the literal `2^63` stores `2^63 - 1`. -/
theorem bigint_stores_neighbours :
    assignBigInt (C := plainCrates) (fun v _ => .ok v) "n" (.ok (.int8 9007199254740993)) =
        .ok (.int8 9007199254740992) ∧
      assignBigInt (C := plainCrates) (fun v _ => .ok v) "n"
          (literal plainCrates true false "9223372036854775808") =
        .ok (.int8 9223372036854775807) := by
  constructor
  · have hround : Flt.roundInt 53 (9007199254740993 : Int64).toInt = 9007199254740992 := by
      decide +kernel
    rw [(assignBigInt_ok _ _ rfl).1, castInteger_int (IntValue.int8 _).source, hround]
    rfl
  · obtain ⟨v, hlit, hnull, hsrc⟩ := literal_source (C := plainCrates)
      (s := "9223372036854775808") ⟨by decide, List.all_eq_true.mp (by decide +kernel)⟩ true false
    have hround : Flt.roundInt 53 (literalInt false "9223372036854775808") = 2 ^ 63 := by
      decide +kernel
    rw [hlit, (assignBigInt_ok _ _ hnull).1, castInteger_int hsrc, hround]
    rfl

/-- Small integers are stored as they are: as a value, as a literal, and as the
result of an expression. -/
theorem bigint_assignment_small :
    Settled 7 (assignBigInt (C := plainCrates) (fun v _ => .ok v) "n" (.ok (.int4 7))) ∧
      Settled (-7) (assignBigInt (C := plainCrates) (fun v _ => .ok v) "n"
        (literal plainCrates false true "7")) ∧
      Settled 42 (assignBigInt (C := plainCrates) (fun v _ => .ok v) "n"
        ((IntExpr.arith (.int4 6) .multiply (.int2 7)).eval plainCrates false)) := by
  obtain ⟨hvalue, hliteral, hexpr, -⟩ :=
    bigint_assignment_iff plainCrates (fun v _ => .ok v) "n" false
  refine ⟨?_, ?_, ?_⟩
  · exact (hvalue _ 7 (.of_int4 (by decide))).mpr (.inl (by decide +kernel))
  · exact (hliteral true "7" ⟨by decide, List.all_eq_true.mp (by decide)⟩).mpr
      (.inl (by decide +kernel))
  · have hcase := hexpr (.arith (.int4 6) .multiply (.int2 7)) 42 (by decide) (by simp [IntExpr.Wraps])
    exact (hcase.2 _ rfl).mpr (.inl (by decide +kernel))

end GuardianDb.Sql
