/-
  Steps along a line of rational slope, cut to integers.

  `rise m d x` is how far the line that rises by `m` in `d` has gone after `x` steps, cut
  toward the start.  `rise_den`: it is exact at both ends of the defining step.  `rise_mono`: it
  never turns back.  `rise_error`: it is off by less than one.  `rise_le`, `le_rise`: it stays
  between the start and the line.
-/
import Mathlib.Algebra.Order.Field.Rat
import Mathlib.Data.Rat.Cast.Order
import Mathlib.Tactic.Linarith
import Mathlib.Tactic.FieldSimp

namespace Slope

def rise (m d : ℕ) (x : ℤ) : ℤ := (x * m).tdiv d

variable {m d : ℕ} {x : ℤ}

theorem rise_of_nonneg (hx : 0 ≤ x) : rise m d x = (x.toNat * m / d : ℕ) := by
  obtain ⟨n, rfl⟩ := Int.eq_ofNat_of_zero_le hx
  rw [rise, Int.tdiv_eq_ediv_of_nonneg (by positivity), Int.toNat_natCast]
  push_cast
  rfl

theorem rise_neg (x : ℤ) : rise m d (-x) = -rise m d x := by
  rw [rise, Int.neg_mul, Int.neg_tdiv, rise]

theorem rise_den (hd : 0 < d) : rise m d d = m := by
  have h : (d : ℤ) ≠ 0 := by exact_mod_cast hd.ne'
  exact Int.mul_tdiv_cancel_left _ h

theorem rise_zero : rise m d 0 = 0 := by simp [rise]

theorem rise_nonneg (hx : 0 ≤ x) : 0 ≤ rise m d x :=
  Int.tdiv_nonneg (Int.mul_nonneg hx (Int.natCast_nonneg m)) (Int.natCast_nonneg d)

theorem rise_nonpos (hx : x ≤ 0) : rise m d x ≤ 0 := by
  have h := rise_nonneg (m := m) (d := d) (Int.neg_nonneg_of_nonpos hx)
  rw [rise_neg] at h
  omega

theorem rise_mono_nonneg {y : ℤ} (hx : 0 ≤ x) (h : x ≤ y) : rise m d x ≤ rise m d y := by
  rw [rise_of_nonneg hx, rise_of_nonneg (hx.trans h)]
  have hmul : x.toNat * m ≤ y.toNat * m := Nat.mul_le_mul_right _ (Int.toNat_le_toNat h)
  exact_mod_cast Nat.div_le_div_right (c := d) hmul

theorem rise_mono {y : ℤ} (h : x ≤ y) : rise m d x ≤ rise m d y := by
  rcases le_total 0 x with hx | hx
  · exact rise_mono_nonneg hx h
  · rcases le_total 0 y with hy | hy
    · exact (rise_nonpos hx).trans (rise_nonneg hy)
    · have hneg := rise_mono_nonneg (m := m) (d := d) (Int.neg_nonneg_of_nonpos hy)
        (Int.neg_le_neg h)
      rw [rise_neg, rise_neg] at hneg
      omega

/-- The line itself, and the part of it that was cut off. -/
theorem line_eq (hd : 0 < d) (x : ℤ) :
    (x : ℚ) * (m / d) = rise m d x + (x * m).tmod d / d := by
  have hq : (d : ℚ) ≠ 0 := by exact_mod_cast hd.ne'
  have h : ((x * m : ℤ) : ℚ) = (rise m d x * d + (x * m).tmod d : ℤ) := by
    rw [rise, Int.tdiv_mul_add_tmod]
  push_cast at h
  field_simp
  linarith

/-- **The cut is less than one.** -/
theorem rise_error (hd : 0 < d) (x : ℤ) : |(rise m d x : ℚ) - x * (m / d)| < 1 := by
  have hq : (0 : ℚ) < d := by exact_mod_cast hd
  have hz : (0 : ℤ) < d := by exact_mod_cast hd
  have hhi : (((x * m).tmod d : ℤ) : ℚ) < d := by exact_mod_cast Int.tmod_lt_of_pos _ hz
  have hlo : -(d : ℚ) < ((x * m).tmod d : ℤ) := by exact_mod_cast Int.lt_tmod_of_pos _ hz
  rw [line_eq hd, abs_lt]
  constructor
  · have := (div_lt_one₀ hq).2 hhi
    linarith
  · have := (lt_div_iff₀ hq).2 ((neg_one_mul (d : ℚ)).symm ▸ hlo)
    linarith

theorem rise_le (hd : 0 < d) (hx : 0 ≤ x) : (rise m d x : ℚ) ≤ x * (m / d) := by
  have hm : (0 : ℚ) ≤ ((x * m).tmod d : ℤ) := by
    exact_mod_cast Int.tmod_nonneg _ (Int.mul_nonneg hx (Int.natCast_nonneg m))
  rw [line_eq hd]
  have : (0 : ℚ) ≤ ((x * m).tmod d : ℤ) / d := div_nonneg hm (Nat.cast_nonneg d)
  linarith

theorem le_rise (hd : 0 < d) (hx : x ≤ 0) : (x : ℚ) * (m / d) ≤ rise m d x := by
  have h := rise_le (m := m) hd (Int.neg_nonneg_of_nonpos hx)
  rw [rise_neg] at h
  push_cast at h
  linarith

end Slope
