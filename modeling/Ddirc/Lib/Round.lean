import Mathlib.Data.Int.Log
import Mathlib.Data.Rat.Floor
import Mathlib.Tactic.Linarith

/-! # Rounding to binary digits

What the arithmetic of floating-point numbers does to a result that is not negative and is in range:
it is rounded to so many binary digits, to the nearest and in doubt to the even one. -/

namespace Ddirc

def roundEven (x : ℚ) : ℤ :=
  if x - ⌊x⌋ < 1 / 2 ∨ x - ⌊x⌋ = 1 / 2 ∧ ⌊x⌋ % 2 = 0 then ⌊x⌋ else ⌊x⌋ + 1

/-- A number, rounded to `digits` binary digits. -/
def roundTo (digits : ℕ) (x : ℚ) : ℚ :=
  let unit : ℚ := 2 ^ (Int.log 2 x + 1 - digits)
  roundEven (x / unit) * unit

theorem le_roundEven (x : ℚ) : x - 1 / 2 ≤ roundEven x := by
  have hfloor := Int.lt_floor_add_one x
  unfold roundEven
  split
  next h =>
    rcases h with h | h <;> linarith
  next h =>
    have := not_lt.1 (not_or.1 h).1
    push_cast
    linarith

/-- A result is too small by half a unit of the last digit at most. -/
theorem le_roundTo (digits : ℕ) {x : ℚ} (hx : 0 ≤ x) : x - x / 2 ^ digits ≤ roundTo digits x := by
  rcases hx.eq_or_lt with rfl | hx
  · simp [roundTo, roundEven]
  have hunit : (0 : ℚ) < 2 ^ (Int.log 2 x + 1 - digits) := zpow_pos two_pos _
  have hhalf : (2 : ℚ) ^ (Int.log 2 x + 1 - digits) / 2 ≤ x / 2 ^ digits := by
    have hlog := Int.zpow_log_le_self (b := 2) (by decide) hx
    rw [Nat.cast_ofNat] at hlog
    rw [zpow_sub₀ two_ne_zero, zpow_add_one₀ two_ne_zero, zpow_natCast, div_right_comm,
      mul_div_cancel_right₀ _ two_ne_zero]
    gcongr
  have hround := mul_le_mul_of_nonneg_right
    (le_roundEven (x / 2 ^ (Int.log 2 x + 1 - digits))) hunit.le
  rw [sub_mul, div_mul_cancel₀ _ hunit.ne'] at hround
  unfold roundTo
  linarith

end Ddirc
