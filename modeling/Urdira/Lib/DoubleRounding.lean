import Mathlib

namespace DoubleRounding

def roundHalfEven (q : ℚ) : ℤ :=
  let rest := q - ⌊q⌋
  if rest < 1 / 2 then ⌊q⌋
  else if 1 / 2 < rest then ⌊q⌋ + 1
  else if ⌊q⌋ % 2 = 0 then ⌊q⌋ else ⌊q⌋ + 1

def spacing (q : ℚ) : ℚ := 2 ^ (Int.log 2 q - 52)

def toDouble (q : ℚ) : ℚ := if q ≤ 0 then 0 else roundHalfEven (q / spacing q) * spacing q

theorem roundHalfEven_error (q : ℚ) : |(roundHalfEven q : ℚ) - q| ≤ 1 / 2 := by
  have hfloor := Int.floor_le q
  have hlt := Int.lt_floor_add_one q
  unfold roundHalfEven
  simp only
  rw [abs_le]
  split
  · constructor <;> linarith
  · split
    · push_cast
      constructor <;> linarith
    · split
      · constructor <;> linarith
      · push_cast
        constructor <;> linarith

theorem toDouble_error {q : ℚ} (hq : 0 < q) : |toDouble q - q| ≤ q / 2 ^ 53 := by
  have hspacing : 0 < spacing q := zpow_pos (by norm_num) _
  have hsmall : spacing q * 2 ^ 52 ≤ q := by
    have hlog := Int.zpow_log_le_self (b := 2) (by norm_num) hq
    rw [spacing, zpow_sub₀ (by norm_num)]
    have hpow : (2 : ℚ) ^ (52 : ℤ) = 2 ^ 52 := by norm_cast
    rw [hpow, div_mul_cancel₀ _ (by norm_num)]
    exact_mod_cast hlog
  have herror := roundHalfEven_error (q / spacing q)
  have hscaled : |toDouble q - q| = |(roundHalfEven (q / spacing q) : ℚ) - q / spacing q| *
      spacing q := by
    rw [toDouble, if_neg (not_le.mpr hq), ← abs_of_pos hspacing, ← abs_mul,
      abs_of_pos hspacing, sub_mul,
      div_mul_cancel₀ _ hspacing.ne']
  rw [hscaled]
  have hbound := mul_le_mul_of_nonneg_right herror hspacing.le
  refine hbound.trans ?_
  linarith

theorem toDouble_bounds {q : ℚ} (hq : 0 ≤ q) :
    q - q / 2 ^ 53 ≤ toDouble q ∧ toDouble q ≤ q + q / 2 ^ 53 := by
  rcases hq.eq_or_lt with rfl | hpos
  · rw [toDouble, if_pos (le_refl 0)]
    norm_num
  · have herror := abs_le.mp (toDouble_error hpos)
    constructor <;> linarith

end DoubleRounding
