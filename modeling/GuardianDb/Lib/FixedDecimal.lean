/-
Decimal numbers with a 96-bit coefficient and at most 28 digits behind the point.

A number is kept in the normal form that has no trailing zeros behind the point
and no negative zero. The normal form is unique, so equality of numbers is
equality of values, and the text without an exponent determines the number.

  * `FixedDecimal.text_injective` — different numbers have different texts.
  * `FixedDecimal.cmp_eq_iff` — numeric comparison identifies no two numbers.
-/
import GuardianDb.Lib.FloatText

open BinaryFloat

/-- The number `± coeff / 10 ^ scale`. -/
@[ext]
structure FixedDecimal where
  neg : Bool
  coeff : Nat
  scale : Nat
  coeff_lt : coeff < 2 ^ 96
  scale_le : scale ≤ 28
  /-- No trailing zero behind the point. -/
  normal : scale = 0 ∨ coeff % 10 ≠ 0
  /-- Zero has no sign. -/
  unsigned : coeff = 0 → neg = false
deriving DecidableEq

namespace FixedDecimal

def ofInt (z : Int) (h : z.natAbs < 2 ^ 96) : FixedDecimal where
  neg := decide (z < 0)
  coeff := z.natAbs
  scale := 0
  coeff_lt := h
  scale_le := by decide
  normal := Or.inl rfl
  unsigned := by
    intro h0
    simp only [decide_eq_false_iff_not]
    omega

theorem ofInt_injective {m n : Int} {hm : m.natAbs < 2 ^ 96} {hn : n.natAbs < 2 ^ 96}
    (h : ofInt m hm = ofInt n hn) : m = n := by
  have habs : m.natAbs = n.natAbs := congrArg coeff h
  have hneg : decide (m < 0) = decide (n < 0) := congrArg neg h
  rw [decide_eq_decide] at hneg
  omega

def negate (d : FixedDecimal) : FixedDecimal :=
  { d with
    neg := !d.neg && decide (d.coeff ≠ 0)
    unsigned := by
      intro h0
      simp [h0] }

/-- The magnitude in units of `10 ^ -28`. -/
def mag (d : FixedDecimal) : Nat := d.coeff * 10 ^ (28 - d.scale)

/-- The number in units of `10 ^ -28`, with its sign. -/
def units (d : FixedDecimal) : Int := if d.neg then -(d.mag : Int) else d.mag

/-- Numeric comparison. -/
def cmp (a b : FixedDecimal) : Ordering := compare a.units b.units

/-- Text without an exponent and without trailing zeros. -/
def text (d : FixedDecimal) : List Char :=
  let body := positional d.coeff 0 d.scale
  if d.neg then '-' :: body else body

theorem splitSign_text (d : FixedDecimal) :
    splitSign d.text = (d.neg, positional d.coeff 0 d.scale) :=
  splitSign_signed d.neg d.coeff 0 d.scale

variable {a b : FixedDecimal}

theorem text_injective (h : a.text = b.text) : a = b := by
  have hsplit := splitSign_text a
  rw [h, splitSign_text b] at hsplit
  obtain ⟨hneg, hbody⟩ := Prod.mk.inj hsplit
  obtain ⟨hcoeff, hscale⟩ := positional_injective hbody
  ext
  · exact hneg.symm ▸ rfl
  · simpa using hcoeff.symm
  · exact hscale.symm

variable {d : FixedDecimal}

/-- A decimal that prints like a number is read as that number. -/
theorem mag_of_display_eq {f : Format} {x : Finite f} (h : display x = d.text) :
    x.mag = Rounding.roundQuot f.precision (d.coeff * 2 ^ f.unit) (10 ^ d.scale) := by
  obtain ⟨n, up, down, htext, hread⟩ := display_positional x
  have hsplit := splitSign_text d
  rw [← h, htext, splitSign_signed] at hsplit
  obtain ⟨-, hbody⟩ := Prod.mk.inj hsplit
  obtain ⟨hcoeff, hscale⟩ := positional_injective hbody
  unfold ofDec Flt.ofQuot at hread
  rw [hcoeff, Nat.pow_zero, Nat.mul_one] at hread
  split at hread
  · rw [← hscale, ← Flt.fin.inj hread]
  · cases hread

/-- At equal value, the scale of a normal number cannot be the larger one. -/
theorem scale_le_of_mag_eq (h : a.mag = b.mag) : b.scale ≤ a.scale := by
  by_contra hlt
  have hb := b.scale_le
  obtain ⟨k, hk⟩ : ∃ k, 28 - a.scale = 28 - b.scale + (k + 1) :=
    ⟨b.scale - a.scale - 1, by omega⟩
  unfold mag at h
  rw [hk, Nat.pow_add, Nat.pow_succ] at h
  have hcoeff : b.coeff = a.coeff * 10 ^ k * 10 := by
    apply Nat.eq_of_mul_eq_mul_right (Nat.pow_pos (n := 28 - b.scale) (by decide : 0 < 10))
    rw [← h]
    ring
  rcases b.normal with h0 | hmod
  · omega
  · exact hmod (by rw [hcoeff, Nat.mul_mod_left])

theorem units_injective (h : a.units = b.units) : a = b := by
  have hmag : a.mag = b.mag := by grind [units]
  have hscale : a.scale = b.scale :=
    Nat.le_antisymm (scale_le_of_mag_eq hmag.symm) (scale_le_of_mag_eq hmag)
  have hcoeff : a.coeff = b.coeff := by simp_all [mag]
  have hneg : a.neg = b.neg := by
    by_cases h0 : a.coeff = 0
    · rw [a.unsigned h0, b.unsigned (hcoeff ▸ h0)]
    · -- with a magnitude, opposite signs are different numbers
      have hpos : 0 < a.mag :=
        Nat.mul_pos (Nat.pos_of_ne_zero h0) (Nat.pow_pos (by decide))
      unfold units at h
      cases ha : a.neg <;> cases hb : b.neg <;> simp only [ha, hb] at h ⊢ <;> simp at h <;> omega
  ext
  · rw [hneg]
  · exact hcoeff
  · exact hscale

theorem cmp_eq_iff (a b : FixedDecimal) : cmp a b = .eq ↔ a = b := by
  unfold cmp
  rw [Std.compare_eq_iff_eq]
  exact ⟨units_injective, fun h => h ▸ rfl⟩

/-! ### Doubles without a decimal -/

/-- `± 2 ^ k` units. -/
def twoPow (neg : Bool) (k : Nat) (hk : k < binary64.top) : Finite binary64 where
  neg := neg
  mag := 2 ^ k
  fits := Rounding.fits_two_pow binary64.precision_pos k
  lt_top := Nat.pow_lt_pow_right (by decide) hk

variable {x : Finite binary64}

theorem eq_twoPow {k : Nat} (hk : k < binary64.top) (hx : x.mag = 2 ^ k) :
    x = twoPow x.neg k hk := by
  ext
  · rfl
  · exact hx

theorem atScale_twoPow96 (hx : x.mag = 2 ^ (96 + binary64.unit)) :
    atScale x 13 0 = some 7922816251426434 := by
  rw [eq_twoPow (by decide) hx]
  cases x.neg <;> decide +kernel

theorem fits_before_twoPow96 (u : Nat) : Rounding.Fits 53 ((2 ^ 96 - 2 ^ 43) * 2 ^ u) := by
  rw [show 2 ^ 96 - 2 ^ 43 = (2 ^ 53 - 1) * 2 ^ 43 by decide]
  exact Rounding.fits_mul_pow (Rounding.fits_mul_pow (Rounding.fits_of_lt (by decide) (by decide)) 43) u

theorem before_twoPow96_lt (u : Nat) : (2 ^ 96 - 2 ^ 43) * 2 ^ u < 2 ^ (96 + u) := by
  rw [Nat.pow_add]
  exact Nat.mul_lt_mul_of_pos_right (by decide) (Nat.two_pow_pos u)

/-- The shortest form of `2 ^ 96` is no decimal: the nearest multiple of `10 ^ 13`
is above it, and the multiples of `10 ^ 14` are too far. -/
theorem shortest_twoPow96 (hx : x.mag = 2 ^ (96 + binary64.unit))
    (hcoeff : (shortest x).1 * 10 ^ (shortest x).2.1 = d.coeff)
    (hscale : (shortest x).2.2 = d.scale) :
    x.mag ≠ Rounding.roundQuot binary64.precision (d.coeff * 2 ^ binary64.unit) (10 ^ d.scale) := by
  obtain ⟨n, up, down, hshort, hat, hup, hdown⟩ :=
    shortest_coarser (by decide +kernel) (atScale_twoPow96 hx)
  rw [hshort] at hcoeff hscale
  have hlt := d.coeff_lt
  obtain rfl | hup : up = 13 ∨ 14 ≤ up := by omega
  · grind [atScale_twoPow96]
  · have hten : d.coeff = n * 10 ^ (up - 14) * 10 ^ 14 := by
      rw [← hcoeff, Nat.mul_assoc, ← Nat.pow_add, Nat.sub_add_cancel hup]
    have hle : d.coeff ≤ 2 ^ 96 - 2 ^ 43 := by omega
    have hround : Rounding.roundQuot 53 (d.coeff * 2 ^ binary64.unit) (10 ^ d.scale) ≤
        (2 ^ 96 - 2 ^ 43) * 2 ^ binary64.unit := by
      apply Rounding.roundQuot_le (Nat.pow_pos (by decide)) (fits_before_twoPow96 _)
      calc d.coeff * 2 ^ binary64.unit ≤ (2 ^ 96 - 2 ^ 43) * 2 ^ binary64.unit :=
            Nat.mul_le_mul_right _ hle
        _ ≤ (2 ^ 96 - 2 ^ 43) * 2 ^ binary64.unit * 10 ^ d.scale :=
            Nat.le_mul_of_pos_right _ (Nat.pow_pos (by decide))
    rw [hx]
    exact Nat.ne_of_gt (Nat.lt_of_le_of_lt hround (before_twoPow96_lt _))

/-- Decimals are read as at most `2 ^ 96`. -/
theorem roundQuot_le_twoPow96 {p u : Nat} (hp : 0 < p) (d : FixedDecimal) :
    Rounding.roundQuot p (d.coeff * 2 ^ u) (10 ^ d.scale) ≤ 2 ^ (96 + u) := by
  apply Rounding.roundQuot_le (Nat.pow_pos (by decide)) (Rounding.fits_two_pow hp _)
  calc d.coeff * 2 ^ u ≤ 2 ^ 96 * 2 ^ u := Nat.mul_le_mul_right _ d.coeff_lt.le
    _ = 2 ^ (96 + u) := by rw [Nat.pow_add]
    _ ≤ 2 ^ (96 + u) * 10 ^ d.scale := Nat.le_mul_of_pos_right _ (Nat.pow_pos (by decide))

/-- The digits of a number that prints like a decimal are those of the decimal. -/
theorem shortest_of_display_eq {f : Format} {x : Finite f} (hx : x.mag ≠ 0) (h : display x = d.text)
    : (shortest x).1 * 10 ^ (shortest x).2.1 = d.coeff ∧ (shortest x).2.2 = d.scale := by
  have hsplit := splitSign_text d
  rw [← h] at hsplit
  unfold display at hsplit
  rcases hshort : shortest x with ⟨n, up, down⟩
  simp only [hx, if_false, hshort, splitSign_signed, Prod.mk.injEq] at hsplit
  obtain ⟨hcoeff, hscale⟩ := positional_injective hsplit.2
  rw [Nat.pow_zero, Nat.mul_one] at hcoeff
  exact ⟨hcoeff, hscale⟩

/-- **A double beyond the decimals prints like none of them.** Only `2 ^ 96`
itself is near enough to be read from a decimal, and its shortest form is larger. -/
theorem display_ne_text (hx : 2 ^ (96 + binary64.unit) ≤ x.mag) (d : FixedDecimal) :
    display x ≠ d.text := by
  intro h
  have hread := mag_of_display_eq h
  have hle := roundQuot_le_twoPow96 (u := binary64.unit) binary64.precision_pos d
  rw [← hread] at hle
  have hpos : 0 < x.mag := Nat.lt_of_lt_of_le (Nat.two_pow_pos _) hx
  obtain ⟨hcoeff, hscale⟩ := shortest_of_display_eq (Nat.ne_of_gt hpos) h
  exact shortest_twoPow96 (Nat.le_antisymm hle hx) hcoeff hscale hread

end FixedDecimal
