/-
Rounding to a fixed number of significant bits.

`roundQuot p a b` is the quotient `a / b` rounded to the nearest integer with at
most `p` significant bits, ties to even. This is the whole of binary
floating-point rounding once magnitudes are counted in units of the smallest
positive number of the format: below `2 ^ p` units every integer is
representable, which is how subnormal numbers are spaced.

  * `roundQuot_le`, `le_roundQuot` — rounding never crosses a representable
    number.
  * `roundQuot_of_fits` — representable numbers are kept.
  * `roundQuot_mul_pow` — scaling by a power of two commutes with rounding.
-/
import Mathlib.Data.Nat.Log
import Mathlib.Tactic.Ring

namespace Rounding

/-- `a / b` rounded to the nearest integer, ties to the even one. -/
def divRound (a b : Nat) : Nat :=
  if 2 * (a % b) < b ∨ (2 * (a % b) = b ∧ a / b % 2 = 0) then a / b else a / b + 1

/-- How many low bits of `n` a significand of `p` bits has no room for. -/
def excess (p n : Nat) : Nat := n.log2 + 1 - p

/-- `n` has at most `p` significant bits. -/
def Fits (p n : Nat) : Prop := 2 ^ excess p n ∣ n

instance (p n : Nat) : Decidable (Fits p n) :=
  inferInstanceAs (Decidable (2 ^ excess p n ∣ n))

/-- The quotient `a / b` rounded to `p` significant bits. -/
def roundQuot (p a b : Nat) : Nat :=
  divRound a (b * 2 ^ excess p (a / b)) * 2 ^ excess p (a / b)

/-! ### Rounded division -/

variable {b : Nat} {a k : Nat}

theorem divRound_le (hb : 0 < b) (h : a ≤ k * b) : divRound a b ≤ k := by
  have hdiv : a / b ≤ k := Nat.div_le_of_le_mul (by rwa [Nat.mul_comm] at h)
  unfold divRound
  split
  · exact hdiv
  · rename_i hup
    -- rounding up means a remainder, so the quotient is below `k`
    rcases Nat.lt_or_ge (a / b) k with hlt | hge
    · exact hlt
    · grind [Nat.div_add_mod]

theorem le_divRound (hb : 0 < b) (h : k * b ≤ a) : k ≤ divRound a b := by
  have hdiv : k ≤ a / b := (Nat.le_div_iff_mul_le hb).mpr h
  unfold divRound
  split <;> omega

theorem divRound_mul_mul {c : Nat} (hc : 0 < c) (a b : Nat) :
    divRound (a * c) (b * c) = divRound a b := by
  have hlt : 2 * (a * c % (b * c)) < b * c ↔ 2 * (a % b) < b := by
    rw [Nat.mul_mod_mul_right, ← Nat.mul_assoc]
    exact Nat.mul_lt_mul_right hc
  have heq : 2 * (a * c % (b * c)) = b * c ↔ 2 * (a % b) = b := by
    rw [Nat.mul_mod_mul_right, ← Nat.mul_assoc]
    exact Nat.mul_left_inj (Nat.ne_of_gt hc)
  simp only [divRound, hlt, heq, Nat.mul_div_mul_right a b hc]

/-! ### Significant bits -/

variable {p n : Nat}

theorem excess_mono {m : Nat} (h : m ≤ n) : excess p m ≤ excess p n := by
  have hlog : m.log2 ≤ n.log2 := by
    simpa only [Nat.log2_eq_log_two] using Nat.log_mono_right h
  unfold excess
  omega

theorem lt_pow_add_excess (p n : Nat) : n < 2 ^ (p + excess p n) := by
  have hlog : n < 2 ^ (n.log2 + 1) := Nat.lt_log2_self
  exact Nat.lt_of_lt_of_le hlog (Nat.pow_le_pow_right (by omega) (by unfold excess; omega))

theorem excess_two_pow (p k : Nat) : excess p (2 ^ k) = k + 1 - p := by
  unfold excess
  rw [Nat.log2_two_pow]

theorem log2_mul_pow (hn : 0 < n) (k : Nat) : (n * 2 ^ k).log2 = n.log2 + k := by
  induction k with
  | zero => simp
  | succ k ih =>
    have hne : n * 2 ^ k ≠ 0 := Nat.mul_ne_zero (Nat.ne_of_gt hn) (Nat.ne_of_gt (Nat.two_pow_pos k))
    rw [Nat.pow_succ, ← Nat.mul_assoc, Nat.mul_comm _ 2, Nat.log2_two_mul hne, ih]
    omega

section
variable {p : Nat} (hp : 0 < p)
include hp

theorem excess_eq_zero {n : Nat} (h : n < 2 ^ p) : excess p n = 0 := by
  unfold excess
  rcases Nat.eq_zero_or_pos n with rfl | hn
  · simp only [Nat.log2_zero]
    omega
  · have hlog : n.log2 < p := (Nat.log2_lt (Nat.ne_of_gt hn)).mpr h
    omega

/-- A number with bits to spare reaches the top bit of its significand. -/
theorem pow_le_of_excess_pos {n : Nat} (h : 0 < excess p n) :
    2 ^ (p + excess p n - 1) ≤ n := by
  have hn : n ≠ 0 := by
    rintro rfl
    simp only [excess, Nat.log2_zero] at h
    omega
  have hlog : p + excess p n - 1 = n.log2 := by
    unfold excess at h ⊢
    omega
  rw [hlog]
  exact Nat.log2_self_le hn

end

/-! ### Representable numbers -/

theorem fits_of_lt (hp : 0 < p) (h : n < 2 ^ p) : Fits p n := by
  unfold Fits
  rw [excess_eq_zero hp h]
  exact Nat.one_dvd n

theorem Fits.mono {q : Nat} (h : Fits p n) (hpq : p ≤ q) : Fits q n := by
  unfold Fits excess at h ⊢
  exact Nat.dvd_trans (Nat.pow_dvd_pow 2 (by omega)) h

theorem fits_mul_pow (h : Fits p n) (k : Nat) : Fits p (n * 2 ^ k) := by
  rcases Nat.eq_zero_or_pos n with rfl | hn
  · rw [Nat.zero_mul]
    exact Nat.dvd_zero _
  · have hle : excess p (n * 2 ^ k) ≤ excess p n + k := by
      unfold excess
      rw [log2_mul_pow hn]
      omega
    calc 2 ^ excess p (n * 2 ^ k) ∣ 2 ^ (excess p n + k) := Nat.pow_dvd_pow 2 hle
      _ = 2 ^ excess p n * 2 ^ k := Nat.pow_add ..
      _ ∣ n * 2 ^ k := Nat.mul_dvd_mul_right h _

theorem fits_two_pow (hp : 0 < p) (k : Nat) : Fits p (2 ^ k) := by
  unfold Fits
  rw [excess_two_pow]
  exact Nat.pow_dvd_pow 2 (by omega)

theorem fits_of_le (hp : 0 < p) (h : n ≤ 2 ^ p) : Fits p n := by
  rcases Nat.lt_or_eq_of_le h with hlt | rfl
  · exact fits_of_lt hp hlt
  · exact fits_two_pow hp p

/-! ### Rounding to significant bits -/

section
variable {p a b : Nat}

/-- **Rounding stays below.** A representable upper bound of the quotient bounds
the rounded quotient. -/
theorem roundQuot_le (hb : 0 < b) {c : Nat} (hc : Fits p c) (h : a ≤ c * b) : roundQuot p a b ≤ c := by
  have hdiv : a / b ≤ c := Nat.div_le_of_le_mul (by rwa [Nat.mul_comm] at h)
  have hs : 2 ^ excess p (a / b) ∣ c :=
    Nat.dvd_trans (Nat.pow_dvd_pow 2 (excess_mono hdiv)) hc
  obtain ⟨k, rfl⟩ := hs
  have hk : divRound a (b * 2 ^ excess p (a / b)) ≤ k := by
    apply divRound_le (Nat.mul_pos hb (Nat.two_pow_pos _))
    calc a ≤ 2 ^ excess p (a / b) * k * b := h
      _ = k * (b * 2 ^ excess p (a / b)) := by ring
  unfold roundQuot
  rw [Nat.mul_comm]
  exact Nat.mul_le_mul_left _ hk

/-- **Rounding stays above.** A representable lower bound of the quotient bounds
the rounded quotient. -/
theorem le_roundQuot (hp : 0 < p) (hb : 0 < b) {c : Nat} (hc : Fits p c) (h : c * b ≤ a) :
    c ≤ roundQuot p a b := by
  have hdiv : c ≤ a / b := (Nat.le_div_iff_mul_le hb).mpr h
  generalize hs : excess p (a / b) = s
  have hpos : 0 < b * 2 ^ s := Nat.mul_pos hb (Nat.two_pow_pos s)
  unfold roundQuot
  rw [hs]
  rcases Nat.lt_or_ge (excess p c) s with hlt | hge
  · -- `c` is below the top bit of the quotient, which is itself representable
    have htop : 2 ^ (p + s - 1) ≤ a / b := by
      subst hs
      exact pow_le_of_excess_pos hp (by omega)
    have hcs : c ≤ 2 ^ (p - 1) * 2 ^ s := by
      rw [← Nat.pow_add]
      apply Nat.le_of_lt
      apply Nat.lt_of_lt_of_le (lt_pow_add_excess p c)
      exact Nat.pow_le_pow_right (by omega) (by omega)
    apply Nat.le_trans hcs
    apply Nat.mul_le_mul_right
    apply le_divRound hpos
    calc 2 ^ (p - 1) * (b * 2 ^ s) = 2 ^ (p + s - 1) * b := by
          rw [show p + s - 1 = p - 1 + s by omega, Nat.pow_add]
          ring
      _ ≤ a / b * b := Nat.mul_le_mul_right b htop
      _ ≤ a := Nat.div_mul_le_self a b
  · obtain ⟨k, rfl⟩ : 2 ^ s ∣ c := Nat.dvd_trans (Nat.pow_dvd_pow 2 hge) hc
    rw [Nat.mul_comm]
    apply Nat.mul_le_mul_right
    apply le_divRound hpos
    calc k * (b * 2 ^ s) = 2 ^ s * k * b := by ring
      _ ≤ a := h

theorem fits_roundQuot (hp : 0 < p) (hb : 0 < b) : Fits p (roundQuot p a b) := by
  apply fits_mul_pow
  apply fits_of_le hp
  apply divRound_le (Nat.mul_pos hb (Nat.two_pow_pos _))
  have hlt : a < (a / b + 1) * b := by
    rw [Nat.mul_comm]
    exact Nat.lt_mul_div_succ a hb
  calc a ≤ (a / b + 1) * b := Nat.le_of_lt hlt
    _ ≤ 2 ^ (p + excess p (a / b)) * b := Nat.mul_le_mul_right b (lt_pow_add_excess p (a / b))
    _ = 2 ^ p * (b * 2 ^ excess p (a / b)) := by
        ring

end

theorem roundQuot_of_fits (hp : 0 < p) (hb : 0 < b) (h : Fits p n) : roundQuot p (n * b) b = n :=
  Nat.le_antisymm (roundQuot_le hb h (Nat.le_refl _)) (le_roundQuot hp hb h (Nat.le_refl _))

theorem roundQuot_eq_self_iff (hp : 0 < p) : roundQuot p n 1 = n ↔ Fits p n := by
  constructor
  · intro h
    rw [← h]
    exact fits_roundQuot hp Nat.one_pos
  · intro h
    have hself := roundQuot_of_fits hp Nat.one_pos h
    rwa [Nat.mul_one] at hself

/-- Rounding an integer commutes with scaling it by a power of two. -/
theorem roundQuot_mul_pow (hp : 0 < p) (n k : Nat) :
    roundQuot p (n * 2 ^ k) 1 = roundQuot p n 1 * 2 ^ k := by
  rcases Nat.eq_zero_or_pos (excess p n) with h0 | hpos
  · have hfits : Fits p n := by
      unfold Fits
      rw [h0]
      exact Nat.one_dvd n
    rw [(roundQuot_eq_self_iff hp).mpr hfits,
      (roundQuot_eq_self_iff hp).mpr (fits_mul_pow hfits k)]
  · have hn : 0 < n := Nat.lt_of_lt_of_le (Nat.two_pow_pos _) (pow_le_of_excess_pos hp hpos)
    have hexcess : excess p (n * 2 ^ k) = excess p n + k := by
      unfold excess at hpos ⊢
      rw [log2_mul_pow hn]
      omega
    unfold roundQuot
    rw [Nat.div_one, Nat.div_one, hexcess, Nat.one_mul, Nat.one_mul, Nat.pow_add,
      divRound_mul_mul (Nat.two_pow_pos k), Nat.mul_assoc]

end Rounding
