import PicoJvm.Lib.Machine

/-!
# Integers of 64 bits, and division

Numbers cut to 64 bits, and the division that rounds down made of the one that rounds to zero.
-/

namespace PicoJvm.Lib.LongInteger

/-- A number cut to 64 bits, read as two's complement. -/
def signedLong (value : Int) : Int :=
  value.bmod 18446744073709551616

/-- A number that fits into 64 bits with its sign. -/
def InLongRange (value : Int) : Prop :=
  -9223372036854775808 ≤ value ∧ value < 9223372036854775808

instance (value : Int) : Decidable (InLongRange value) :=
  inferInstanceAs (Decidable (_ ∧ _))

theorem signedLong_of_inLongRange
    {value : Int}
    (inRange : InLongRange value) :
    signedLong value = value := by
  unfold InLongRange at inRange
  simp only [signedLong, Int.bmod]
  split <;> omega

theorem inLongRange_signedLong (value : Int) : InLongRange (signedLong value) := by
  simp only [InLongRange, signedLong, Int.bmod]
  split <;> omega

/-- The division that rounds down. -/
theorem floor_of_tdiv
    (value : Int) {divisor : Int}
    (positive : 0 < divisor) :
    (if 0 ≤ value then value.tdiv divisor else (value + 1).tdiv divisor - 1) =
      value / divisor := by
  split
  case isTrue nonneg =>
    exact Int.tdiv_eq_ediv_of_nonneg nonneg
  case isFalse negative =>
    have toNegative : (value + 1).tdiv divisor = -((-(value + 1)) / divisor) := by
      rw [← Int.tdiv_eq_ediv_of_nonneg (by omega), Int.neg_tdiv, Int.neg_neg]
    have below := Int.ediv_mul_le (-(value + 1)) positive.ne'
    have above := Int.lt_ediv_add_one_mul_self (-(value + 1)) positive
    rw [toNegative]
    symm
    rw [Int.ediv_eq_iff_of_pos positive]
    constructor <;> grind

/-- The remainder that belongs to the division that rounds down. -/
theorem sub_floor_mul (value divisor : Int) :
    value - value / divisor * divisor = value % divisor := by
  have whole := Int.ediv_mul_add_emod value divisor
  omega

end PicoJvm.Lib.LongInteger
