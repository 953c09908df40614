import Mathlib

namespace EtranProcessing.Library.Rounding

def roundEven (x : ℚ) : ℤ :=
  if 2 * Int.fract x < 1 ∨ (2 * Int.fract x = 1 ∧ Even ⌊x⌋) then ⌊x⌋ else ⌊x⌋ + 1

theorem floor_le_roundEven (x : ℚ) : ⌊x⌋ ≤ roundEven x := by
  rw [roundEven]
  split <;> omega

theorem roundEven_le (x : ℚ) : roundEven x ≤ ⌊x⌋ + 1 := by
  rw [roundEven]
  split <;> omega

@[simp] theorem roundEven_intCast (n : ℤ) : roundEven n = n := by
  rw [roundEven, if_pos (.inl (by simp)), Int.floor_intCast]

theorem roundEven_monotone : Monotone roundEven := by
  intro x y hxy
  have hfloor : ⌊x⌋ ≤ ⌊y⌋ := Int.floor_le_floor hxy
  obtain hlt | heq := lt_or_eq_of_le hfloor
  · calc roundEven x ≤ ⌊x⌋ + 1 := roundEven_le x
      _ ≤ ⌊y⌋ := hlt
      _ ≤ roundEven y := floor_le_roundEven y
  · have hfract : Int.fract x ≤ Int.fract y := by
      rw [Int.fract, Int.fract, heq]
      linarith
    simp only [roundEven, heq]
    split
    · split <;> omega
    next hup =>
      rw [if_neg]
      rintro (hdown | ⟨hhalf, heven⟩)
      · exact hup (.inl (by linarith))
      · obtain hless | hsame := lt_or_eq_of_le hfract
        · exact hup (.inl (by linarith))
        · exact hup (.inr ⟨by rw [hsame]; exact hhalf, heven⟩)

/-- The distance of the floating-point numbers around a positive number, for a
significand with so many bits behind the leading one. -/
def ulp (bits : ℕ) (x : ℚ) : ℚ := 2 ^ (Int.log 2 x - bits)

/-- The floating-point number nearest to a number, which is not negative. Its
exponent is not bounded. -/
def nearest (bits : ℕ) (x : ℚ) : ℚ := if x ≤ 0 then 0 else roundEven (x / ulp bits x) * ulp bits x

variable {bits : ℕ}

theorem ulp_pos (x : ℚ) : 0 < ulp bits x := by
  exact zpow_pos two_pos _

@[simp] theorem nearest_zero : nearest bits 0 = 0 := if_pos le_rfl

theorem scaled (x : ℚ) (n : ℕ) : (2 : ℚ) ^ (Int.log 2 x - bits + n) / ulp bits x = ((2 ^ n : ℤ) : ℚ) := by
  rw [ulp, zpow_add₀ two_ne_zero, mul_div_cancel_left₀ _ (zpow_ne_zero _ two_ne_zero)]
  norm_cast

theorem power_le_nearest {x : ℚ} (hx : 0 < x) : (2 : ℚ) ^ Int.log 2 x ≤ nearest bits x := by
  have hle : (2 : ℚ) ^ Int.log 2 x ≤ x := by exact_mod_cast Int.zpow_log_le_self one_lt_two hx
  have hscaled := @scaled bits x bits
  rw [sub_add_cancel] at hscaled
  have hround : (2 ^ bits : ℤ) ≤ roundEven (x / ulp bits x) := by
    rw [← roundEven_intCast (2 ^ bits), ← hscaled]
    apply roundEven_monotone
    exact div_le_div_of_nonneg_right hle (ulp_pos x).le
  rw [nearest, if_neg hx.not_ge, ← div_le_iff₀ (ulp_pos x), hscaled]
  exact_mod_cast hround

theorem nearest_le_power {x : ℚ} (hx : 0 < x) : nearest bits x ≤ (2 : ℚ) ^ (Int.log 2 x + 1) := by
  have hlt : x < (2 : ℚ) ^ (Int.log 2 x + 1) := by exact_mod_cast Int.lt_zpow_succ_log_self one_lt_two x
  have hscaled := @scaled bits x (bits + 1)
  rw [Nat.cast_add, ← add_assoc, sub_add_cancel, Nat.cast_one] at hscaled
  have hround : roundEven (x / ulp bits x) ≤ (2 ^ (bits + 1) : ℤ) := by
    rw [← roundEven_intCast (2 ^ (bits + 1)), ← hscaled]
    apply roundEven_monotone
    exact div_le_div_of_nonneg_right hlt.le (ulp_pos x).le
  rw [nearest, if_neg hx.not_ge, ← le_div_iff₀ (ulp_pos x), hscaled]
  exact_mod_cast hround

theorem nearest_nonneg (x : ℚ) : 0 ≤ nearest bits x := by
  by_cases hx : 0 < x
  · exact (zpow_nonneg two_pos.le _).trans (power_le_nearest hx)
  · rw [nearest, if_pos (not_lt.mp hx)]

theorem nearest_monotone : Monotone (nearest bits) := by
  intro x y hxy
  by_cases hx : 0 < x
  · have hlog : Int.log 2 x ≤ Int.log 2 y := Int.log_mono_right hx hxy
    obtain hlt | heq := lt_or_eq_of_le hlog
    · calc nearest bits x ≤ (2 : ℚ) ^ (Int.log 2 x + 1) := nearest_le_power hx
        _ ≤ (2 : ℚ) ^ Int.log 2 y := zpow_le_zpow_right₀ one_le_two hlt
        _ ≤ nearest bits y := power_le_nearest (hx.trans_le hxy)
    · have hulp : ulp bits x = ulp bits y := by rw [ulp, ulp, heq]
      rw [nearest, nearest, if_neg hx.not_ge, if_neg (hx.trans_le hxy).not_ge, hulp]
      apply mul_le_mul_of_nonneg_right _ (ulp_pos y).le
      exact_mod_cast roundEven_monotone (div_le_div_of_nonneg_right hxy (ulp_pos y).le)
  · rw [nearest, if_pos (not_lt.mp hx)]
    exact nearest_nonneg y

end EtranProcessing.Library.Rounding
