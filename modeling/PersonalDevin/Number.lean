import PersonalDevin.Lib.Decimal
import PersonalDevin.Value

/-!
# Numbers among the values

The number that a value is, and the float that a rounded number is written as. Floats are computed with
as the decimals they are written as, without a rounding of their own.
-/

namespace PersonalDevin

open Lib

namespace Value

/-- The number of a value of the types `int` and `float`; a boolean is an integer. -/
def number? : Value → Option ℚ
  | bool b => some (if b then 1 else 0)
  | int n => some n
  | float mantissa exponent =>
      some (if 0 ≤ exponent then mantissa * 10 ^ exponent.toNat
        else mantissa / 10 ^ (-exponent).toNat)
  | _ => Option.none

/-- The float of so many units of a decimal, without zeros at its end. -/
def ofUnits : ℕ → ℤ → Value
  | 0, n => float n 0
  | decimals + 1, n => if 10 ∣ n then ofUnits decimals (n / 10) else float n (-(decimals + 1))

theorem number?_ofUnits (decimals : ℕ) (n : ℤ) :
    (ofUnits decimals n).number? = some ((n : ℚ) / 10 ^ decimals) := by
  induction decimals generalizing n with
  | zero => simp [ofUnits, number?]
  | succ decimals ih =>
      rw [ofUnits]
      split
      · rename_i hdvd
        obtain ⟨m, rfl⟩ := hdvd
        rw [ih, Int.mul_ediv_cancel_left m (by decide), pow_succ', Int.cast_mul,
          show ((10 : ℤ) : ℚ) = 10 from rfl, mul_div_mul_left _ _ (by norm_num : (10 : ℚ) ≠ 0)]
      · have hneg : ¬ (0 : ℤ) ≤ -((decimals : ℤ) + 1) := by omega
        have htoNat : (-(-((decimals : ℤ) + 1))).toNat = decimals + 1 := by omega
        simp only [number?, hneg, if_false, htoNat]

theorem jsonRoundTrip_ofUnits (decimals : ℕ) (n : ℤ) :
    (ofUnits decimals n).jsonRoundTrip = some (ofUnits decimals n) := by
  induction decimals generalizing n with
  | zero => rfl
  | succ decimals ih =>
      rw [ofUnits]
      split
      · exact ih _
      · rfl

/-- The float of a number with so many decimals. -/
def ofDecimal (decimals : ℕ) (q : ℚ) : Value := ofUnits decimals (units decimals q)

end Value

/-- `x`, where `isinstance(x, int)`: a boolean is an integer. -/
def intOf : Option Value → Option ℤ
  | some (.bool b) => some (if b then 1 else 0)
  | some (.int n) => some n
  | _ => none

end PersonalDevin
