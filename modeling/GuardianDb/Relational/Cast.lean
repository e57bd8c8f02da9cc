/-
Casting to the integer types.

`cast` sends every source through an `f64`: integers are converted to the
nearest one, rounded to an integer, compared with the bounds of the target as
`f64` values, and converted back with saturation. The branches of `cast` for the
other target types are not modelled; they stand as the parameter `castOther`.

  * `castInteger_int` — what the cast to `bigint` stores for an integer.
  * `int8_exact_iff`, `int8_rejected_iff` — when this is the integer itself, and
    when a number is refused.
-/
import GuardianDb.Relational.Value

namespace GuardianDb.Relational

open BinaryFloat Rounding

/-! ### Text -/

/-- `char::is_whitespace`: the characters with the Unicode property `White_Space`. -/
def isWhitespace (c : Char) : Bool :=
  let n := c.toNat
  (9 ≤ n && n ≤ 13) || n == 0x20 || n == 0x85 || n == 0xA0 || n == 0x1680 ||
    (0x2000 ≤ n && n ≤ 0x200A) || n == 0x2028 || n == 0x2029 || n == 0x202F || n == 0x205F ||
    n == 0x3000

def trim (s : String) : String :=
  String.ofList ((s.toList.dropWhile isWhitespace).reverse.dropWhile isWhitespace).reverse

/-! ### The cast -/

def checkedInt (r min max : F64) (ty : SqlType) : Except RelError F64 :=
  if r = .nan ∨ r.lt min ∨ max.lt r then .error (.numericValueOutOfRange ty.name) else .ok r

/-- The bounds of a machine integer as `f64` values. -/
def boundF64 (n : Int) : F64 := .ofInt binary64 n

section
variable {C : Crates}

/-- The number that a cast to an integer type starts from. -/
def integerSource (target : SqlType) : SqlValue C → Except RelError F64
  | .text s =>
    match parse binary64 (trim s) with
    | some x => .ok x
    | none => .error (.invalidTextRepresentation target.name s)
  | .bool b => .ok (.ofInt binary64 (if b then 1 else 0))
  | v =>
    match v.asF64 with
    | some x => .ok x
    | none => .error (.cannotCoerce v.typeOf.name target.name)

/-- The rounded number as a value of the target type, if it is in range. -/
def integerOfF64 (target : SqlType) (r : F64) : Except RelError (SqlValue C) :=
  match target with
  | .smallInt =>
    (checkedInt r (boundF64 Int16.minValue.toInt) (boundF64 Int16.maxValue.toInt) target).map
      fun r => .int2 (Int16.ofInt (r.toIntSat Int16.minValue.toInt Int16.maxValue.toInt))
  | .integer =>
    (checkedInt r (boundF64 Int32.minValue.toInt) (boundF64 Int32.maxValue.toInt) target).map
      fun r => .int4 (Int32.ofInt (r.toIntSat Int32.minValue.toInt Int32.maxValue.toInt))
  | _ =>
    (checkedInt r (boundF64 Int64.minValue.toInt) (boundF64 Int64.maxValue.toInt) target).map
      fun r => .int8 (Int64.ofInt (r.toIntSat Int64.minValue.toInt Int64.maxValue.toInt))

/-- `cast` to `smallint`, `integer` or `bigint`. -/
def castInteger (target : SqlType) (v : SqlValue C) : Except RelError (SqlValue C) :=
  match integerSource target v with
  | .ok n => integerOfF64 target n.roundAway
  | .error e => .error e

variable (castOther : SqlValue C → SqlType → Except RelError (SqlValue C))

def cast (v : SqlValue C) (target : SqlType) : Except RelError (SqlValue C) :=
  if v.isNull then .ok .null
  else if target.isInteger then castInteger target v
  else castOther v target

/-- `coerce_to`: the cast that INSERT and UPDATE apply to an assigned value. -/
def coerceTo (v : SqlValue C) (ty : SqlType) (column : String) : Except RelError (SqlValue C) :=
  if v.isNull then .ok .null
  else
    match cast castOther v ty with
    | .ok out => .ok out
    | .error _ => .error (.datatypeMismatch column ty.name v.typeOf.name)

end

/-! ### Integers cast to `bigint` -/

/-- The bounds of `i64` as `f64` values: the upper one is one too large. -/
theorem boundF64_i64 {n m : Int} (hn : Flt.roundInt 53 n = m) (hm : m.natAbs ≤ 2 ^ 63) :
    ∃ x : Finite binary64, boundF64 n = .fin x ∧ Flt.Integral x m := by
  rcases Flt.ofInt_cases (f := binary64) n with ⟨x, hx, hint⟩ | ⟨-, hbig⟩
  · exact ⟨x, hx, hn ▸ hint⟩
  · have hlt : (Flt.roundInt 53 n).natAbs * 2 ^ binary64.unit < 2 ^ binary64.top :=
      Nat.lt_of_le_of_lt (Nat.mul_le_mul_right _ (hn ▸ hm)) (by decide +kernel)
    exact absurd hbig (Nat.not_le_of_lt hlt)

section
variable {C : Crates}

/-- The last steps of a cast to `bigint`, for a number that is an integer. -/
theorem integerOfF64_integral {x : Finite binary64} {m : Int} (hx : Flt.Integral x m) :
    integerOfF64 (C := C) .bigInt (.fin x) =
      if m < -2 ^ 63 ∨ 2 ^ 63 < m then .error (.numericValueOutOfRange "bigint")
      else .ok (.int8 (Int64.ofInt (min (2 ^ 63 - 1) m))) := by
  obtain ⟨lo, hlo, hloInt⟩ :=
    boundF64_i64 (n := Int64.minValue.toInt) (m := -2 ^ 63) (by decide +kernel) (by decide)
  obtain ⟨hi, hhi, hhiInt⟩ :=
    boundF64_i64 (n := Int64.maxValue.toInt) (m := 2 ^ 63) (by decide +kernel) (by decide)
  unfold integerOfF64 checkedInt
  simp only [hlo, hhi]
  simp only [hx.lt_iff hloInt, hhiInt.lt_iff hx, reduceCtorEq, false_or]
  by_cases hout : m < -2 ^ 63 ∨ 2 ^ 63 < m
  · rw [if_pos hout, if_pos hout]
    rfl
  · rw [if_neg hout, if_neg hout]
    have hsat : (Flt.fin x).toIntSat Int64.minValue.toInt Int64.maxValue.toInt =
        min (2 ^ 63 - 1) m := by
      rw [hx.toIntSat, show Int64.minValue.toInt = -2 ^ 63 by decide,
        show Int64.maxValue.toInt = 2 ^ 63 - 1 by decide]
      omega
    simp only [Except.map, hsat]

theorem integerOfF64_inf (neg : Bool) :
    integerOfF64 (C := C) .bigInt (.inf neg) = .error (.numericValueOutOfRange "bigint") := by
  obtain ⟨lo, hlo, -⟩ :=
    boundF64_i64 (n := Int64.minValue.toInt) (m := -2 ^ 63) (by decide +kernel) (by decide)
  obtain ⟨hi, hhi, -⟩ :=
    boundF64_i64 (n := Int64.maxValue.toInt) (m := 2 ^ 63) (by decide +kernel) (by decide)
  unfold integerOfF64 checkedInt
  simp only [hlo, hhi, Flt.inf_lt, Flt.lt_inf]
  cases neg <;> rfl

/-- **What a cast to `bigint` stores.** An integer is rounded to 53 significant
bits; one that leaves `[-2^63, 2^63]` is refused, and `2^63` itself saturates. -/
theorem castInteger_int {v : SqlValue C} {z : Int}
    (hsrc : integerSource .bigInt v = .ok (.ofInt binary64 z)) :
    castInteger .bigInt v =
      if Flt.roundInt 53 z < -2 ^ 63 ∨ 2 ^ 63 < Flt.roundInt 53 z then
        .error (.numericValueOutOfRange "bigint")
      else .ok (.int8 (Int64.ofInt (min (2 ^ 63 - 1) (Flt.roundInt 53 z)))) := by
  unfold castInteger
  simp only [hsrc]
  rcases Flt.ofInt_cases (f := binary64) z with ⟨x, hx, hint⟩ | ⟨hinf, hbig⟩
  · rw [hx, Flt.roundAway_of_integral hint]
    exact integerOfF64_integral hint
  · have hhuge : 2 ^ 64 ≤ (Flt.roundInt 53 z).natAbs := by
      by_contra hlt
      have hle : (Flt.roundInt 53 z).natAbs * 2 ^ binary64.unit ≤ 2 ^ 64 * 2 ^ binary64.unit :=
        Nat.mul_le_mul_right _ (by omega)
      exact absurd (Nat.le_trans hbig hle) (by decide +kernel)
    rw [hinf, if_pos (by omega)]
    exact integerOfF64_inf _

end

/-! ### When the cast is exact -/

/-- `z` is a 64-bit signed integer. -/
def InI64 (z : Int) : Prop := -2 ^ 63 ≤ z ∧ z < 2 ^ 63

instance (z : Int) : Decidable (InI64 z) := inferInstanceAs (Decidable (_ ∧ _))

theorem roundInt_natAbs (p : Nat) (z : Int) :
    (Flt.roundInt p z).natAbs = roundQuot p z.natAbs 1 := by
  unfold Flt.roundInt
  split <;> simp

theorem roundInt_natAbs_le {z : Int} (h : z.natAbs ≤ 2 ^ 63) :
    (Flt.roundInt 53 z).natAbs ≤ 2 ^ 63 := by
  rw [roundInt_natAbs]
  exact roundQuot_le Nat.one_pos (fits_two_pow (by decide) 63) (by omega)

/-- Just above `2^63` the numbers of 53 bits are 2048 apart, and `2^63` is the
even one of its pair: everything up to the midpoint rounds down to it. -/
theorem roundInt_natAbs_le_iff {z : Int} (h : 2 ^ 63 ≤ z.natAbs) :
    (Flt.roundInt 53 z).natAbs ≤ 2 ^ 63 ↔ z.natAbs ≤ 2 ^ 63 + 1024 := by
  rw [roundInt_natAbs]
  generalize z.natAbs = n at h
  rcases Nat.lt_or_ge n (2 ^ 64) with hlt | hge
  · have hexcess : excess 53 (n / 1) = 11 := by
      unfold excess
      rw [Nat.div_one, (Nat.log2_eq_iff (by omega)).mpr ⟨h, hlt⟩]
    unfold roundQuot divRound
    rw [hexcess]
    split <;> omega
  · have hround : 2 ^ 64 ≤ roundQuot 53 n 1 :=
      le_roundQuot (by decide) Nat.one_pos (fits_two_pow (by decide) 64) (by omega)
    omega

section
variable {C : Crates} {v : SqlValue C} {z : Int}
variable (hsrc : integerSource .bigInt v = .ok (.ofInt binary64 z))
include hsrc

/-- A 64-bit integer is stored as itself exactly when it has at most 53
significant bits, or is the largest one. -/
theorem castInteger_stores_iff (hz : InI64 z) :
    castInteger .bigInt v = .ok (.int8 (Int64.ofInt z)) ↔ Fits 53 z.natAbs ∨ z = 2 ^ 63 - 1 := by
  unfold InI64 at hz
  have hround := roundInt_natAbs_le (z := z) (by omega)
  have hinj : ∀ m : Int, InI64 m → (Int64.ofInt m = Int64.ofInt z ↔ m = z) := by
    intro m hm
    constructor
    · intro h
      have hint := congrArg Int64.toInt h
      rwa [Int64.toInt_ofInt_of_le hm.1 hm.2, Int64.toInt_ofInt_of_le hz.1 hz.2] at hint
    · intro h
      rw [h]
  rw [castInteger_int hsrc, if_neg (by omega), ← Flt.roundInt_eq_self_iff (by decide)]
  simp only [Except.ok.injEq, SqlValue.int8.injEq]
  rw [hinj _ ⟨by omega, by omega⟩]
  constructor
  · intro h
    omega
  · rintro (h | rfl)
    · omega
    · -- the largest integer rounds up to `2^63` and saturates back
      rfl

/-- An integer outside the 64-bit range is refused exactly when it is more than
1024 away from it. -/
theorem castInteger_rejects_iff (hz : ¬ InI64 z) :
    (∃ e, castInteger .bigInt v = .error e) ↔ 2 ^ 63 + 1024 < z.natAbs := by
  unfold InI64 at hz
  have hround := roundInt_natAbs_le_iff (z := z) (by omega)
  rw [castInteger_int hsrc]
  by_cases hout : Flt.roundInt 53 z < -2 ^ 63 ∨ 2 ^ 63 < Flt.roundInt 53 z
  · rw [if_pos hout]
    simp only [Except.error.injEq, exists_eq', true_iff]
    omega
  · grind

end

end GuardianDb.Relational
