import Mathlib.Data.Rat.Floor
import Mathlib.Tactic.FieldSimp
import Mathlib.Tactic.Ring

/-!
# Decimals

Rounding of a rational number to so many decimals, half to even. Nothing here is about a program.
-/

namespace Lib

/-- The nearest integer, and of two nearest ones the even one. -/
def roundHalfEven (q : ℚ) : ℤ :=
  let fraction := q - ⌊q⌋
  if fraction < 1 / 2 then ⌊q⌋
  else if 1 / 2 < fraction then ⌊q⌋ + 1
  else if 2 ∣ ⌊q⌋ then ⌊q⌋
  else ⌊q⌋ + 1

theorem roundHalfEven_intCast (n : ℤ) : roundHalfEven n = n := by
  have hfraction : (n : ℚ) - (n : ℚ) < 1 / 2 := by
    rw [sub_self]
    norm_num
  simp only [roundHalfEven, Int.floor_intCast, hfraction, if_true]

/-- The number in units of the last decimal. -/
def units (decimals : ℕ) (q : ℚ) : ℤ := roundHalfEven (q * 10 ^ decimals)

def roundDecimals (decimals : ℕ) (q : ℚ) : ℚ := units decimals q / 10 ^ decimals

theorem roundDecimals_zero (decimals : ℕ) : roundDecimals decimals 0 = 0 := by
  have hunits : units decimals 0 = 0 := by
    rw [units, zero_mul]
    exact roundHalfEven_intCast 0
  rw [roundDecimals, hunits, Int.cast_zero, zero_div]

/-- An integer is rounded already. -/
theorem roundDecimals_intCast (decimals : ℕ) (n : ℤ) : roundDecimals decimals n = n := by
  have hunits : units decimals n = n * 10 ^ decimals := by
    rw [units]
    exact_mod_cast roundHalfEven_intCast (n * 10 ^ decimals)
  rw [roundDecimals, hunits, Int.cast_mul, Int.cast_pow]
  exact mul_div_cancel_right₀ _ (pow_ne_zero _ (by norm_num))

/-- A number of so many decimals is in units of the last of them. -/
theorem units_div (decimals : ℕ) (n : ℤ) : units decimals (n / 10 ^ decimals) = n := by
  have hpower : (10 : ℚ) ^ decimals ≠ 0 := pow_ne_zero _ (by norm_num)
  rw [units, div_mul_cancel₀ _ hpower, roundHalfEven_intCast]

theorem units_roundDecimals (decimals : ℕ) (q : ℚ) :
    units decimals (roundDecimals decimals q) = units decimals q := units_div decimals _

end Lib
