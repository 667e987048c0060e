import Mathlib.Algebra.Order.Group.Nat
import Mathlib.Tactic.Ring

/-!
# Reversing bits

The lowest bits of a number in the opposite order. Reversing splits where the bits are split,
and is undone by reversing again.
-/

namespace PicoJvm.Lib.BitReversal

/-- The lowest `width` bits of a number, the lowest one first. -/
def reverse : Nat → Nat → Nat
  | 0, _ => 0
  | width + 1, number => number % 2 * 2 ^ width + reverse width (number / 2)

theorem zero_reverse (number : Nat) : reverse 0 number = 0 :=
  rfl

theorem reverse_succ (width number : Nat) :
    reverse (width + 1) number = number % 2 * 2 ^ width + reverse width (number / 2) :=
  rfl

@[simp] theorem reverse_zero (width : Nat) : reverse width 0 = 0 := by
  induction width with
  | zero => rfl
  | succ width induction => simp [reverse_succ, induction]

theorem reverse_lt (width number : Nat) : reverse width number < 2 ^ width := by
  induction width generalizing number with
  | zero => exact Nat.one_pos
  | succ width induction =>
      have rest := induction (number / 2)
      have bit : number % 2 ≤ 1 := by omega
      have first : number % 2 * 2 ^ width ≤ 1 * 2 ^ width := Nat.mul_le_mul_right _ bit
      rw [reverse_succ, Nat.pow_succ]
      omega

/-- The bits of a number in two parts. -/
theorem reverse_add (low high number : Nat) :
    reverse (low + high) number = reverse low number * 2 ^ high + reverse high (number / 2 ^ low) := by
  induction low generalizing number with
  | zero => simp [zero_reverse]
  | succ low induction =>
      rw [Nat.add_right_comm, reverse_succ, reverse_succ, induction, Nat.div_div_eq_div_mul, ← Nat.pow_succ',
        Nat.pow_add]
      ring

/-- Higher bits do not matter. -/
theorem reverse_mod (width number : Nat) : reverse width (number % 2 ^ width) = reverse width number := by
  induction width generalizing number with
  | zero => rfl
  | succ width induction =>
      have bit : number % 2 ^ (width + 1) % 2 = number % 2 := by
        rw [Nat.pow_succ']
        exact Nat.mod_mul_right_mod _ _ _
      have rest : number % 2 ^ (width + 1) / 2 = number / 2 % 2 ^ width := by
        rw [Nat.pow_succ']
        exact Nat.mod_mul_right_div_self _ _ _
      rw [reverse_succ, reverse_succ, bit, rest, induction]

/-- A number that is shifted left begins with zeros. -/
theorem reverse_shifted (width shift number : Nat) :
    reverse (shift + width) (number * 2 ^ shift) = reverse width number := by
  have zeros : reverse shift (number * 2 ^ shift) = 0 := by
    rw [← reverse_mod, Nat.mul_mod_left, reverse_zero]
  rw [reverse_add, zeros, Nat.zero_mul, Nat.zero_add, Nat.mul_div_left _ (Nat.two_pow_pos shift)]

/-- The lowest bits in opposite order are the highest ones of the number in opposite order. -/
theorem reverse_div (low high number : Nat) :
    reverse (low + high) number / 2 ^ high = reverse low number := by
  rw [reverse_add, Nat.mul_comm, Nat.mul_add_div (Nat.two_pow_pos high),
    Nat.div_eq_of_lt (reverse_lt _ _), Nat.add_zero]

theorem reverse_snoc (width number : Nat) :
    reverse (width + 1) number = reverse width number * 2 + number / 2 ^ width % 2 := by
  rw [reverse_add, Nat.pow_one]
  simp [reverse_succ, zero_reverse]

theorem reverse_reverse (width number : Nat) :
    reverse width (reverse width number) = number % 2 ^ width := by
  induction width generalizing number with
  | zero => simp [zero_reverse, Nat.mod_one]
  | succ width induction =>
      have split : number % 2 ^ (width + 1) = number % 2 ^ width + 2 ^ width * (number / 2 ^ width % 2) := by
        rw [Nat.pow_succ, Nat.mod_mul]
      have bit : (reverse width number * 2 + number / 2 ^ width % 2) % 2 = number / 2 ^ width % 2 := by
        omega
      have rest : (reverse width number * 2 + number / 2 ^ width % 2) / 2 = reverse width number := by
        omega
      have snoc := reverse_snoc width number
      rw [snoc, reverse_succ, bit, rest, induction, split]
      ring

/-- The lowest bits of a number are those of a code in opposite order. -/
theorem mod_eq_reverse_iff
    {width code number : Nat}
    (fits : code < 2 ^ width) :
    number % 2 ^ width = reverse width code ↔ reverse width number = code := by
  constructor
  · intro same
    rw [← reverse_mod, same, reverse_reverse, Nat.mod_eq_of_lt fits]
  · rintro rfl
    exact (reverse_reverse width number).symm

theorem testBit_reverse
    {width index : Nat}
    (inside : index < width)
    (number : Nat) :
    (reverse width number).testBit index = number.testBit (width - 1 - index) := by
  induction width generalizing index with
  | zero => omega
  | succ width induction =>
      cases index with
      | zero =>
          have bit : (reverse width number * 2 + number / 2 ^ width % 2) % 2 =
              number / 2 ^ width % 2 := by
            omega
          rw [reverse_snoc, Nat.testBit_zero, bit, Nat.testBit_eq_decide_div_mod_eq]
          rfl
      | succ index =>
          have rest : (reverse width number * 2 + number / 2 ^ width % 2) / 2 =
              reverse width number := by
            omega
          rw [reverse_snoc, Nat.testBit_succ, rest, induction (Nat.lt_of_succ_lt_succ inside)]
          congr 1
          omega

end PicoJvm.Lib.BitReversal
