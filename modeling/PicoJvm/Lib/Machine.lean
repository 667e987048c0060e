import Mathlib.Data.Int.Lemmas

/-!
# Integers of 32 bits

Numbers cut to 32 bits, as two's complement and as natural numbers, and numbers clamped
between zero and a length.
-/

namespace PicoJvm.Lib.Machine

/-- A number cut to 32 bits, read as two's complement. -/
def signed (value : Int) : Int :=
  value.bmod 4294967296

/-- A number cut to 32 bits, read as a natural number. -/
def unsigned (value : Int) : Nat :=
  (value % 4294967296).toNat

/-- A number that fits into 32 bits with its sign. -/
def InRange (value : Int) : Prop :=
  -2147483648 ≤ value ∧ value < 2147483648

instance (value : Int) : Decidable (InRange value) :=
  inferInstanceAs (Decidable (_ ∧ _))

theorem signed_of_inRange {value : Int} (inRange : InRange value) : signed value = value := by
  unfold InRange at inRange
  simp only [signed, Int.bmod]
  split <;> omega

theorem inRange_signed (value : Int) : InRange (signed value) := by
  simp only [InRange, signed, Int.bmod]
  split <;> omega

theorem signed_add_signed (value value' : Int) :
    signed (value + signed value') = signed (value + value') :=
  Int.add_bmod_bmod

theorem unsigned_of_nonneg
    {value : Int}
    (nonneg : 0 ≤ value)
    (below : value < 4294967296) :
    (unsigned value : Int) = value := by
  unfold unsigned
  omega

/-- The nearest number from zero to a length. -/
def clamp (length : Nat) (value : Int) : Nat :=
  if value < 0 then 0 else if value > length then length else value.toNat

theorem clamp_cast (length : Nat) (value : Int) :
    (clamp length value : Int) = max 0 (min value length) := by
  unfold clamp
  split
  · omega
  · split <;> omega

theorem clamp_le (length : Nat) (value : Int) : clamp length value ≤ length := by
  have := clamp_cast length value
  omega

theorem clamp_of_le
    {length : Nat} {value : Nat}
    (inside : value ≤ length) :
    clamp length value = value := by
  have := clamp_cast length value
  omega

/-- A step forward may start at a place behind the end. -/
theorem clamp_add
    {length : Nat} {value step : Int}
    (nonneg : 0 ≤ value)
    (inside : value ≤ length ∨ 0 ≤ step) :
    clamp length (clamp length value + step) = clamp length (value + step) := by
  apply Int.ofNat.inj
  change (clamp _ _ : Int) = (clamp _ _ : Int)
  rw [clamp_cast, clamp_cast, clamp_cast]
  rcases inside with before | forward
  · rw [min_eq_left before, max_eq_right nonneg]
  · omega

end PicoJvm.Lib.Machine
