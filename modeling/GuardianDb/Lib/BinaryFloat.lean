/-
Binary floating-point numbers of a fixed format, as values.

A finite number is a sign and a magnitude counted in units of the smallest
positive number of the format (`2 ^ -1074` for binary64). The magnitudes of a
format are the integers with at most `precision` significant bits below
`2 ^ top`, so neither exponents nor a separate case for subnormal numbers
appear. Operations round an exact result with `ofQuot`.

  * `Flt.ofInt_cases` — an integer becomes the integer with `precision`
    significant bits nearest to it.
  * `Flt.roundAway_of_integral`, `Flt.Integral.trunc` — rounding to an integer and
    cutting the fraction off, on numbers that are integers.
-/
import GuardianDb.Lib.Rounding

namespace BinaryFloat

open Rounding

/-- A binary format: significand bits, the exponent of the unit (the smallest
positive number is `2 ^ -unit`), and the exponent that magnitudes stay below. -/
structure Format where
  precision : Nat
  unit : Nat
  top : Nat
  precision_pos : 0 < precision

/-- IEEE 754 double precision. -/
def binary64 : Format := ⟨53, 1074, 2098, by decide⟩

/-- IEEE 754 single precision. -/
def binary32 : Format := ⟨24, 149, 277, by decide⟩

/-- A finite number, `± mag * 2 ^ -unit`. -/
@[ext]
structure Finite (f : Format) where
  neg : Bool
  mag : Nat
  fits : Fits f.precision mag
  lt_top : mag < 2 ^ f.top
deriving DecidableEq

/-- A floating-point number. The payload of a NaN is not observable here. -/
inductive Flt (f : Format) where
  | nan
  | inf (neg : Bool)
  | fin (x : Finite f)
deriving DecidableEq

namespace Finite

variable {f : Format}

/-- The number in units, with its sign. Both zeros are `0`. -/
def units (x : Finite f) : Int := if x.neg then -(x.mag : Int) else x.mag

/-- The integer part: the fraction is cut off. -/
def trunc (x : Finite f) : Int :=
  if x.neg then -((x.mag / 2 ^ f.unit : Nat) : Int) else (x.mag / 2 ^ f.unit : Nat)

theorem natAbs_trunc (x : Finite f) : x.trunc.natAbs = x.mag / 2 ^ f.unit := by
  unfold trunc
  split
  · rw [Int.natAbs_neg, Int.natAbs_natCast]
  · rw [Int.natAbs_natCast]

end Finite

namespace Flt

variable {f : Format}

/-- The number nearest to `± a / b`; infinite when no finite number is near. -/
def ofQuot (f : Format) (neg : Bool) (a : Nat) {b : Nat} (hb : 0 < b) : Flt f :=
  if h : roundQuot f.precision (a * 2 ^ f.unit) b < 2 ^ f.top then
    .fin ⟨neg, _, fits_roundQuot f.precision_pos hb, h⟩
  else
    .inf neg

/-- Conversion of an integer. -/
def ofInt (f : Format) (z : Int) : Flt f := ofQuot f (decide (z < 0)) z.natAbs Nat.one_pos

/-- Conversion between formats. -/
def convert {f : Format} (g : Format) : Flt f → Flt g
  | .nan => .nan
  | .inf neg => .inf neg
  | .fin x => ofQuot g x.neg x.mag (Nat.two_pow_pos f.unit)

def isFinite : Flt f → Bool
  | .fin _ => true
  | _ => false

def negate : Flt f → Flt f
  | .nan => .nan
  | .inf neg => .inf (!neg)
  | .fin x => .fin { x with neg := !x.neg }

/-- Numeric comparison; a NaN compares with nothing and the zeros are equal. -/
def partialCmp : Flt f → Flt f → Option Ordering
  | .fin x, .fin y => some (compare x.units y.units)
  | .nan, _ => none
  | _, .nan => none
  | .inf a, .inf b => some (compare b a)
  | .inf neg, .fin _ => some (if neg then .lt else .gt)
  | .fin _, .inf neg => some (if neg then .gt else .lt)

def lt (x y : Flt f) : Bool := partialCmp x y == some .lt

theorem exists_fin {x : Flt f} (hx : x.isFinite) : ∃ y, x = .fin y := by
  cases x with
  | fin y => exact ⟨y, rfl⟩
  | nan | inf => cases hx

variable (x y : Finite f)

theorem partialCmp_fin :
    partialCmp (.fin x) (.fin y) = some .eq ↔ x.units = y.units := by
  rw [partialCmp, Option.some.injEq, Std.compare_eq_iff_eq]

theorem lt_fin : lt (.fin x) (.fin y) = decide (x.units < y.units) := by
  rw [Bool.eq_iff_iff]
  simp only [lt, partialCmp, beq_iff_eq, Option.some.injEq, Int.compare_eq_lt, decide_eq_true_eq]

theorem lt_inf (x : Finite f) (neg : Bool) : lt (.fin x) (.inf neg) = !neg := by
  cases neg <;> rfl

theorem inf_lt (neg : Bool) (x : Finite f) : lt (.inf neg) (.fin x) = neg := by
  cases neg <;> rfl

/-- The nearest integer, halves away from zero. -/
def roundAway : Flt f → Flt f
  | .fin x => ofQuot f x.neg ((2 * x.mag + 2 ^ f.unit) / 2 ^ (f.unit + 1)) Nat.one_pos
  | x => x

/-- Conversion to an integer in `[lo, hi]`: the fraction is cut off, what lies
outside becomes the nearer bound, and a NaN becomes zero. -/
def toIntSat (lo hi : Int) : Flt f → Int
  | .nan => 0
  | .inf neg => if neg then lo else hi
  | .fin x => max lo (min hi x.trunc)

def isNan : Flt f → Bool
  | .nan => true
  | _ => false

/-- `min`: a NaN gives way to a number. -/
protected def min (x y : Flt f) : Flt f := if x.isNan || lt y x then y else x

/-- `max`, likewise. -/
protected def max (x y : Flt f) : Flt f := if x.isNan || lt x y then y else x

theorem min_fin :
    ∃ z : Finite f, Flt.min (.fin x) (.fin y) = .fin z ∧ z.units = min x.units y.units := by
  unfold Flt.min
  rw [lt_fin]
  by_cases h : y.units < x.units
  · exact ⟨y, by simp [isNan, h], by omega⟩
  · exact ⟨x, by simp [isNan, h], by omega⟩

theorem max_fin :
    ∃ z : Finite f, Flt.max (.fin x) (.fin y) = .fin z ∧ z.units = max x.units y.units := by
  unfold Flt.max
  rw [lt_fin]
  by_cases h : x.units < y.units
  · exact ⟨y, by simp [isNan, h], by omega⟩
  · exact ⟨x, by simp [isNan, h], by omega⟩

/-! ### Widening -/

variable {g : Format}

variable {x : Finite f} {y : Finite f}

section
variable (hp : f.precision ≤ g.precision) (hu : f.unit ≤ g.unit)
  (ht : f.top + (g.unit - f.unit) ≤ g.top)
include hp hu ht

/-- Conversion to a format with more bits and a wider range changes nothing. -/
theorem convert_widen (x : Finite f) :
    ∃ y : Finite g, convert g (.fin x) = .fin y ∧ y.neg = x.neg ∧
      y.mag = x.mag * 2 ^ (g.unit - f.unit) := by
  have hfits : Fits g.precision (x.mag * 2 ^ (g.unit - f.unit)) :=
    fits_mul_pow (x.fits.mono hp) _
  have hself : roundQuot g.precision (x.mag * 2 ^ g.unit) (2 ^ f.unit) =
      x.mag * 2 ^ (g.unit - f.unit) := by
    rw [show x.mag * 2 ^ g.unit = x.mag * 2 ^ (g.unit - f.unit) * 2 ^ f.unit by
      rw [Nat.mul_assoc, ← Nat.pow_add, Nat.sub_add_cancel hu]]
    exact roundQuot_of_fits g.precision_pos (Nat.two_pow_pos _) hfits
  have hlt : roundQuot g.precision (x.mag * 2 ^ g.unit) (2 ^ f.unit) < 2 ^ g.top := by
    rw [hself]
    calc x.mag * 2 ^ (g.unit - f.unit) < 2 ^ f.top * 2 ^ (g.unit - f.unit) :=
          Nat.mul_lt_mul_of_pos_right x.lt_top (Nat.two_pow_pos _)
      _ = 2 ^ (f.top + (g.unit - f.unit)) := (Nat.pow_add ..).symm
      _ ≤ 2 ^ g.top := Nat.pow_le_pow_right (by omega) ht
  exact ⟨_, dif_pos hlt, rfl, hself⟩

/-- Widening and going back gives the number. -/
theorem convert_convert (x : Finite f) :
    convert f (convert g (.fin x)) = .fin x := by
  obtain ⟨y, hy, hneg, hmag⟩ := convert_widen hp hu ht x
  have hself : roundQuot f.precision (y.mag * 2 ^ f.unit) (2 ^ g.unit) = x.mag := by
    rw [hmag, Nat.mul_assoc, ← Nat.pow_add, Nat.sub_add_cancel hu]
    exact roundQuot_of_fits f.precision_pos (Nat.two_pow_pos _) x.fits
  rw [hy]
  simp only [convert, ofQuot]
  rw [dif_pos (by rw [hself]; exact x.lt_top)]
  exact congrArg Flt.fin (Finite.ext hneg hself)

/-- Widening keeps finite numbers finite. -/
theorem isFinite_convert {x : Flt f} (hx : x.isFinite) :
    (x.convert g).isFinite := by
  obtain ⟨x, rfl⟩ := exists_fin hx
  obtain ⟨y, hy, -⟩ := convert_widen hp hu ht x
  rw [hy]
  rfl

/-- Widening keeps different finite numbers apart. -/
theorem convert_injOn (h : convert g (.fin x) = convert g (.fin y)) : x = y := by
  obtain ⟨x', hx', hxneg, hxmag⟩ := convert_widen hp hu ht x
  obtain ⟨y', hy', hyneg, hymag⟩ := convert_widen hp hu ht y
  have hsame : x' = y' := by simp_all
  subst hsame
  rw [hxmag] at hymag
  ext
  · rw [← hxneg, ← hyneg]
  · exact Nat.eq_of_mul_eq_mul_right (Nat.two_pow_pos _) hymag

/-- Widening keeps the comparison of finite numbers. -/
theorem partialCmp_convert (x y : Finite f) :
    partialCmp (convert g (.fin x)) (convert g (.fin y)) = some .eq ↔
      partialCmp (.fin x) (.fin y) = some .eq := by
  have hunits : ∀ {x : Finite f} {x' : Finite g}, x'.neg = x.neg →
      x'.mag = x.mag * 2 ^ (g.unit - f.unit) → x'.units = x.units * 2 ^ (g.unit - f.unit) := by
    simp_all [Finite.units]
  obtain ⟨x', hx', hxneg, hxmag⟩ := convert_widen hp hu ht x
  obtain ⟨y', hy', hyneg, hymag⟩ := convert_widen hp hu ht y
  rw [hx', hy', partialCmp_fin, partialCmp_fin, hunits hxneg hxmag, hunits hyneg hymag]
  have hpos : (2 ^ (g.unit - f.unit) : Int) ≠ 0 := Int.pow_ne_zero (by decide)
  exact ⟨fun h => Int.eq_of_mul_eq_mul_right hpos h, fun h => h ▸ rfl⟩

end

/-! ### Arithmetic -/

/-- The sum, rounded once; an exact zero is negative only for two negative terms. -/
def add : Flt f → Flt f → Flt f
  | .fin x, .fin y =>
    let sum := x.units + y.units
    ofQuot f (if sum = 0 then x.neg && y.neg else decide (sum < 0)) sum.natAbs
      (Nat.two_pow_pos f.unit)
  | .inf a, .inf b => if a = b then .inf a else .nan
  | .inf a, .fin _ => .inf a
  | .fin _, .inf b => .inf b
  | _, _ => .nan

def sub (x y : Flt f) : Flt f := add x (negate y)

def isNeg : Flt f → Bool
  | .nan => false
  | .inf neg => neg
  | .fin x => x.neg

def isZero : Flt f → Bool
  | .fin x => x.mag == 0
  | _ => false

def mul (x y : Flt f) : Flt f :=
  let neg := x.isNeg != y.isNeg
  match x, y with
  | .fin x, .fin y => ofQuot f neg (x.mag * y.mag) (Nat.two_pow_pos (2 * f.unit))
  | .nan, _ | _, .nan => .nan
  | x, y => if x.isZero || y.isZero then .nan else .inf neg

def div (x y : Flt f) : Flt f :=
  let neg := x.isNeg != y.isNeg
  match x, y with
  | .fin x, .fin y =>
    if h : 0 < y.mag then ofQuot f neg x.mag h else if x.mag = 0 then .nan else .inf neg
  | .inf _, .fin _ => .inf neg
  | .fin _, .inf _ => ofQuot f neg 0 Nat.one_pos
  | _, _ => .nan

/-- The remainder of truncated division, with the sign of the dividend. -/
def rem : Flt f → Flt f → Flt f
  | .fin x, .fin y =>
    if y.mag = 0 then .nan else ofQuot f x.neg (x.mag % y.mag) (Nat.two_pow_pos f.unit)
  | .fin x, .inf _ => .fin x
  | _, _ => .nan

/-! ### Integers -/

/-- `z` rounded to `p` significant bits. -/
def roundInt (p : Nat) (z : Int) : Int :=
  if z < 0 then -(roundQuot p z.natAbs 1 : Int) else roundQuot p z.natAbs 1

theorem roundInt_eq_self_iff {p : Nat} (hp : 0 < p) (z : Int) :
    roundInt p z = z ↔ Fits p z.natAbs := by
  rw [← roundQuot_eq_self_iff hp]
  unfold roundInt
  split <;> omega

/-- `x` is the integer `z`, kept with its sign. -/
structure Integral (x : Finite f) (z : Int) : Prop where
  mag : x.mag = z.natAbs * 2 ^ f.unit
  neg : z ≠ 0 → x.neg = decide (z < 0)

variable {z : Int}

theorem Integral.cases (h : Integral x z) :
    (z = z.natAbs ∧ (x.neg = false ∨ z = 0)) ∨ (z = -z.natAbs ∧ x.neg = true) := by
  rcases Int.lt_trichotomy z 0 with hz | rfl | hz
  · right
    exact ⟨by omega, by simpa [hz] using h.neg (by omega)⟩
  · left
    exact ⟨rfl, .inr rfl⟩
  · left
    have hneg : ¬ z < 0 := by omega
    exact ⟨by omega, .inl (by simpa [hneg] using h.neg (by omega))⟩

theorem Integral.units (h : Integral x z) : x.units = z * 2 ^ f.unit := by
  have hmag : (x.mag : Int) = z.natAbs * 2 ^ f.unit := by exact_mod_cast h.mag
  unfold Finite.units
  rw [hmag]
  rcases h.cases with ⟨hz, hneg | rfl⟩ | ⟨hz, hneg⟩
  · rw [hneg, if_neg (by decide), ← hz]
  · simp
  · rw [hneg, if_pos rfl, ← Int.neg_mul, ← hz]

theorem Integral.lt_iff {m n : Int} (hx : Integral x m) (hy : Integral y n) :
    lt (.fin x) (.fin y) = true ↔ m < n := by
  have hpos : (0 : Int) < 2 ^ f.unit := Int.pow_pos (by decide)
  rw [lt_fin, hx.units, hy.units, decide_eq_true_eq]
  exact ⟨fun h => Int.lt_of_mul_lt_mul_right h (Int.le_of_lt hpos),
    fun h => Int.mul_lt_mul_of_pos_right h hpos⟩

theorem Integral.trunc (h : Integral x z) : x.trunc = z := by
  have hdiv : x.mag / 2 ^ f.unit = z.natAbs := by
    rw [h.mag, Nat.mul_div_cancel _ (Nat.two_pow_pos _)]
  unfold Finite.trunc
  rw [hdiv]
  rcases h.cases with ⟨hz, hneg | rfl⟩ | ⟨hz, hneg⟩
  · rw [hneg, if_neg (by decide), ← hz]
  · simp
  · rw [hneg, if_pos rfl, ← hz]

/-- **Integers are rounded to the precision of the format**, or to infinity when
the rounded integer is out of range. -/
theorem ofInt_cases (z : Int) :
    (∃ x : Finite f, ofInt f z = .fin x ∧ Integral x (roundInt f.precision z)) ∨
      (ofInt f z = .inf (decide (z < 0)) ∧
        2 ^ f.top ≤ (roundInt f.precision z).natAbs * 2 ^ f.unit) := by
  have hmag : roundQuot f.precision (z.natAbs * 2 ^ f.unit) 1 =
      (roundInt f.precision z).natAbs * 2 ^ f.unit := by
    unfold roundInt
    split <;> simp [roundQuot_mul_pow f.precision_pos]
  rcases Nat.lt_or_ge (roundQuot f.precision (z.natAbs * 2 ^ f.unit) 1) (2 ^ f.top) with hlt | hge
  · left
    refine ⟨_, dif_pos hlt, hmag, ?_⟩
    intro hne
    unfold roundInt at hne ⊢
    split <;> rename_i hneg <;> simp only [hneg, if_true, if_false] at hne ⊢ <;>
      simp only [decide_eq_decide, true_iff, false_iff] <;> omega
  · right
    exact ⟨dif_neg (by omega), hmag ▸ hge⟩

theorem negate_ofQuot (neg : Bool) (a : Nat) {b : Nat} (hb : 0 < b) :
    negate (ofQuot f neg a hb) = ofQuot f (!neg) a hb := by
  unfold ofQuot
  split <;> rfl

theorem negate_ofInt (hz : z ≠ 0) : negate (ofInt f z) = ofInt f (-z) := by
  have hneg : (!decide (z < 0)) = decide (-z < 0) := by grind
  unfold ofInt
  rw [negate_ofQuot, hneg, Int.natAbs_neg]

theorem Integral.toIntSat (h : Integral x z) (lo hi : Int) :
    (Flt.fin x).toIntSat lo hi = max lo (min hi z) := by
  change max lo (min hi x.trunc) = _
  rw [h.trunc]

theorem roundAway_of_integral (h : Integral x z) : roundAway (.fin x) = .fin x := by
  have hcut : (2 * x.mag + 2 ^ f.unit) / 2 ^ (f.unit + 1) = z.natAbs := by
    have hpos := Nat.two_pow_pos f.unit
    rw [h.mag, Nat.pow_succ]
    apply Nat.div_eq_of_lt_le
    · grind
    · grind
  have hself : roundQuot f.precision (z.natAbs * 2 ^ f.unit) 1 = x.mag := by
    rw [← h.mag]
    exact (roundQuot_eq_self_iff f.precision_pos).mpr x.fits
  have hlt : roundQuot f.precision (z.natAbs * 2 ^ f.unit) 1 < 2 ^ f.top := by
    rw [hself]
    exact x.lt_top
  unfold roundAway ofQuot
  simp only [hcut]
  rw [dif_pos hlt]
  congr 1
  ext
  · rfl
  · exact hself

end Flt

end BinaryFloat
