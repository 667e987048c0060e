import Mathlib.Data.Nat.Bitwise
import Mathlib.Tactic.Ring

/-!
# Two fields and a flag in a word

A word of 32 bits with a low field of `shift` bits, a high field above it and the sign bit as a
flag. The fields are read back with masks.
-/

namespace PicoJvm.Lib.PackedWord

/-- The mask of the low field. -/
def lowMask (shift : Nat) : Nat :=
  2 ^ shift - 1

/-- The mask of the high field: the complement of the low mask, without the sign bit. -/
def highMask (shift : Nat) : Nat :=
  (2 ^ 32 - 1 - lowMask shift) &&& 0x7fffffff

/-- The sign bit, when the flag is set. -/
def signBit (flag : Bool) : Nat :=
  if flag then 0x80000000 else 0

/-- The word with the given fields. -/
def pack (shift high low : Nat) (flag : Bool) : Nat :=
  (high <<< shift) % 2 ^ 32 ||| (low ||| signBit flag)

variable {shift high low : Nat} (flag : Bool)

theorem low_or_signBit
    (lowFits : low < 2 ^ shift)
    (shiftFits : shift ≤ 31) :
    low ||| signBit flag = signBit flag + low := by
  have lowBound : low < 2 ^ 31 := lt_of_lt_of_le lowFits (Nat.pow_le_pow_right (by decide) shiftFits)
  cases flag with
  | false =>
      simp [signBit]
  | true =>
      have together := Nat.two_pow_add_eq_or_of_lt lowBound 1
      rw [Nat.or_comm]
      simpa [signBit] using together.symm

/-- The fields of the word do not overlap. -/
theorem pack_eq
    (shiftFits : shift ≤ 31)
    (highFits : high < 2 ^ (31 - shift))
    (lowFits : low < 2 ^ shift) :
    pack shift high low flag = signBit flag + high * 2 ^ shift + low ∧
      high * 2 ^ shift + low < 2 ^ 31 := by
  have split : (2 : Nat) ^ (31 - shift) * 2 ^ shift = 2 ^ 31 := by
    rw [← Nat.pow_add]
    congr 1
    omega
  have whole : high * 2 ^ shift + low < 2 ^ 31 := by
    have above : (high + 1) * 2 ^ shift ≤ 2 ^ (31 - shift) * 2 ^ shift :=
      Nat.mul_le_mul_right _ highFits
    rw [split, Nat.add_mul] at above
    omega
  refine ⟨?_, whole⟩
  have kept : (high <<< shift) % 2 ^ 32 = high * 2 ^ shift := by
    rw [Nat.shiftLeft_eq]
    apply Nat.mod_eq_of_lt
    have : (2 : Nat) ^ 31 < 2 ^ 32 := by decide
    omega
  have joined : high * 2 ^ shift ||| low = high * 2 ^ shift + low := by
    rw [Nat.mul_comm]
    exact (Nat.two_pow_add_eq_or_of_lt lowFits high).symm
  rw [pack, kept, ← Nat.or_assoc, joined, low_or_signBit flag whole (Nat.le_refl 31), Nat.add_assoc]

theorem signBit_eq : signBit flag = (if flag then 1 else 0) * 2 ^ 31 := by
  cases flag <;> rfl

/-- The low field is read back. -/
theorem pack_low
    (shiftFits : shift ≤ 31)
    (highFits : high < 2 ^ (31 - shift))
    (lowFits : low < 2 ^ shift) :
    pack shift high low flag &&& lowMask shift = low := by
  have split : (2 : Nat) ^ 31 = 2 ^ (31 - shift) * 2 ^ shift := by
    rw [← Nat.pow_add]
    congr 1
    omega
  have shape : pack shift high low flag =
      low + ((if flag then 1 else 0) * 2 ^ (31 - shift) + high) * 2 ^ shift := by
    rw [(pack_eq flag shiftFits highFits lowFits).1, signBit_eq, split]
    ring
  rw [lowMask, Nat.and_two_pow_sub_one_eq_mod, shape, Nat.add_mul_mod_self_right,
    Nat.mod_eq_of_lt lowFits]

/-- The flag is read back as the sign. -/
theorem pack_sign
    (shiftFits : shift ≤ 31)
    (highFits : high < 2 ^ (31 - shift))
    (lowFits : low < 2 ^ shift) :
    pack shift high low flag < 2 ^ 31 ↔ flag = false := by
  obtain ⟨shape, whole⟩ := pack_eq flag shiftFits highFits lowFits
  rw [shape, signBit_eq]
  cases flag <;> simp <;> omega

theorem highMask_eq
    (shiftFits : shift ≤ 31) :
    highMask shift = 2 ^ 31 - (lowMask shift + 1) := by
  have positive := Nat.two_pow_pos shift
  have bound : (2 : Nat) ^ shift ≤ 2 ^ 31 := Nat.pow_le_pow_right (by decide) shiftFits
  have sevens : (0x7fffffff : Nat) = 2 ^ 31 - 1 := by decide
  have twice : (2 : Nat) ^ 32 = 2 ^ 31 + 2 ^ 31 := by decide
  rw [highMask, sevens, Nat.and_two_pow_sub_one_eq_mod, lowMask, twice]
  have parts : 2 ^ 31 + 2 ^ 31 - 1 - (2 ^ shift - 1) = (2 ^ 31 - 2 ^ shift) + 2 ^ 31 := by omega
  rw [parts, Nat.add_mod_right, Nat.mod_eq_of_lt (by omega)]
  omega

/-- Masking and shifting take out the bits between the low field and the sign. -/
theorem and_highMask_shiftRight
    (word : Nat)
    (shiftFits : shift ≤ 31) :
    (word &&& highMask shift) >>> shift = word % 2 ^ 31 / 2 ^ shift := by
  have lowBound : lowMask shift < 2 ^ 31 := by
    have bound : (2 : Nat) ^ shift ≤ 2 ^ 31 := Nat.pow_le_pow_right (by decide) shiftFits
    have positive := Nat.two_pow_pos shift
    unfold lowMask
    omega
  apply Nat.eq_of_testBit_eq
  intro place
  rw [highMask_eq shiftFits, Nat.testBit_shiftRight, Nat.testBit_and,
    Nat.testBit_two_pow_sub_succ lowBound, Nat.testBit_div_two_pow, Nat.testBit_mod_two_pow,
    lowMask, Nat.testBit_two_pow_sub_one]
  have notLow : ¬ shift + place < shift := by omega
  rw [Nat.add_comm place shift, decide_eq_false notLow, Bool.not_false, Bool.and_true,
    Bool.and_comm]

/-- The high field is read back. -/
theorem pack_high
    (shiftFits : shift ≤ 31)
    (highFits : high < 2 ^ (31 - shift))
    (lowFits : low < 2 ^ shift) :
    (pack shift high low flag &&& highMask shift) >>> shift = high := by
  obtain ⟨shape, whole⟩ := pack_eq flag shiftFits highFits lowFits
  have rest : pack shift high low flag % 2 ^ 31 = high * 2 ^ shift + low := by
    rw [shape, signBit_eq, Nat.add_assoc, Nat.mul_add_mod_self_right, Nat.mod_eq_of_lt whole]
  rw [and_highMask_shiftRight _ shiftFits, rest, Nat.mul_comm,
    Nat.mul_add_div (Nat.two_pow_pos shift), Nat.div_eq_of_lt lowFits, Nat.add_zero]

/-- Masking alone leaves the high field in place. -/
theorem pack_and_highMask
    (shiftFits : shift ≤ 31)
    (highFits : high < 2 ^ (31 - shift))
    (lowFits : low < 2 ^ shift) :
    pack shift high low flag &&& highMask shift = high <<< shift := by
  have above : (pack shift high low flag &&& highMask shift) % 2 ^ shift = 0 := by
    have noLow : highMask shift % 2 ^ shift = 0 := by
      have split : (2 : Nat) ^ 31 = 2 ^ shift * 2 ^ (31 - shift) := by
        rw [← Nat.pow_add]
        congr 1
        omega
      have positive := Nat.two_pow_pos shift
      have lowSucc : lowMask shift + 1 = 2 ^ shift := by
        unfold lowMask
        omega
      have factored : 2 ^ shift * 2 ^ (31 - shift) - 2 ^ shift =
          2 ^ shift * (2 ^ (31 - shift) - 1) := by
        rw [Nat.mul_sub_one]
      rw [highMask_eq shiftFits, lowSucc, split, factored, Nat.mul_mod_right]
    rw [Nat.and_mod_two_pow, noLow, Nat.and_zero]
  have field := pack_high flag shiftFits highFits lowFits
  rw [Nat.shiftRight_eq_div_pow] at field
  have whole := Nat.div_add_mod (pack shift high low flag &&& highMask shift) (2 ^ shift)
  rw [field, above, Nat.add_zero] at whole
  rw [Nat.shiftLeft_eq, Nat.mul_comm]
  exact whole.symm

/-- The low field is replaced under the mask. -/
theorem repack
    {newLow : Nat}
    (shiftFits : shift ≤ 31)
    (highFits : high < 2 ^ (31 - shift))
    (lowFits : low < 2 ^ shift)
    (newFits : newLow < 2 ^ shift) :
    (pack shift high low flag &&& highMask shift) ||| newLow = pack shift high newLow false := by
  have whole := (pack_eq false shiftFits highFits newFits).2
  rw [pack_and_highMask flag shiftFits highFits lowFits, pack]
  have kept : (high <<< shift) % 2 ^ 32 = high <<< shift := by
    rw [Nat.shiftLeft_eq]
    apply Nat.mod_eq_of_lt
    have : (2 : Nat) ^ 31 < 2 ^ 32 := by decide
    omega
  rw [kept, signBit, if_neg (by decide), Nat.or_zero]

end PicoJvm.Lib.PackedWord
