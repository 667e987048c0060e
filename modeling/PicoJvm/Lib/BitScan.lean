import Mathlib.Data.List.Range
import Mathlib.Algebra.Group.Nat.Defs

/-!
# Scanning a word for its bits

The bits of a word of 32 bits that are set, lowest first, found by shifting: half of the word that
is left is passed over at once when nothing in it is set.
-/

namespace PicoJvm.Lib.BitScan

/-- The lowest bits of a word, as many as are asked for. -/
def lowBits (count : Nat) : BitVec 32 :=
  1#32 <<< count - 1

/-- One step of the search: passes over the lowest bits when none of them is set. -/
def skip (count : Nat) (found : BitVec 32 × Nat) : BitVec 32 × Nat :=
  if found.1 &&& lowBits count = 0 then (found.1 >>> count, found.2 + count) else found

/-- The search for the lowest bit that is set. -/
def skipZeros (found : BitVec 32 × Nat) : BitVec 32 × Nat :=
  skip 1 (skip 2 (skip 4 (skip 8 (skip 16 found))))

/-- The bits of a word that are set, counted from a position. -/
def scanWord : Nat → BitVec 32 → Nat → List Nat
  | 0, _, _ => []
  | rounds + 1, bitword, position =>
      if bitword = 0 then
        []
      else
        let found := skipZeros (bitword, position)
        found.2 :: scanWord rounds (found.1 >>> 1) (found.2 + 1)

/-! ## Lowest bits -/

theorem lowBits_toNat
    {count : Nat} (small : count < 32) :
    (lowBits count).toNat = 2 ^ count - 1 := by
  have below : 2 ^ count < 2 ^ 32 := Nat.pow_lt_pow_right (by decide) small
  have positive := Nat.two_pow_pos count
  have shifted : (1#32 <<< count).toNat = 2 ^ count := by
    rw [BitVec.toNat_shiftLeft, BitVec.toNat_ofNat, Nat.shiftLeft_eq]
    simpa using Nat.mod_eq_of_lt below
  rw [lowBits, BitVec.toNat_sub_of_le (by rw [BitVec.le_def, shifted]; exact positive), shifted]
  rfl

theorem getLsbD_lowBits
    {count : Nat} (small : count < 32) (bit : Nat) :
    (lowBits count).getLsbD bit = decide (bit < count) := by
  rw [BitVec.getLsbD, lowBits_toNat small, Nat.testBit_two_pow_sub_one]

theorem and_lowBits_eq_zero_iff
    {count : Nat} (small : count < 32) (bitword : BitVec 32) :
    bitword &&& lowBits count = 0 ↔ ∀ bit < count, bitword.getLsbD bit = false := by
  constructor
  · intro none bit below
    have isZero := congrArg (fun word => BitVec.getLsbD word bit) none
    simpa [getLsbD_lowBits small, below] using isZero
  · intro none
    apply BitVec.eq_of_getLsbD_eq
    intro bit _
    rw [BitVec.getLsbD_and, getLsbD_lowBits small]
    by_cases below : bit < count
    · simp [none bit below]
    · simp [below]

/-! ## The lowest bit that is set -/

/-- What has been found of a word and a position: so many zeros have been passed over, and one of
the next bits is set. -/
structure Found (bitword : BitVec 32) (position within : Nat) (found : BitVec 32 × Nat) :
    Prop where
  shifted : ∃ zeros, found = (bitword >>> zeros, position + zeros) ∧
    ∀ bit < zeros, bitword.getLsbD bit = false
  next : ∃ bit < within, found.1.getLsbD bit = true

theorem Found.skip
    {bitword : BitVec 32} {position count : Nat} {found : BitVec 32 × Nat}
    (small : count < 32)
    (isFound : Found bitword position (count + count) found) :
    Found bitword position count (skip count found) := by
  obtain ⟨⟨zeros, foundEq, passed⟩, bit, within, isSet⟩ := isFound
  rw [BitScan.skip]
  by_cases none : found.1 &&& lowBits count = 0
  · rw [if_pos none]
    have low := (and_lowBits_eq_zero_iff small found.1).mp none
    refine ⟨⟨zeros + count, ?_, ?_⟩, ?_⟩
    · rw [foundEq, BitVec.shiftRight_add, Nat.add_assoc]
    · intro lower below
      by_cases before : lower < zeros
      · exact passed lower before
      · have bitEq := low (lower - zeros) (by omega)
        rw [foundEq, BitVec.getLsbD_ushiftRight] at bitEq
        rwa [Nat.add_sub_cancel' (by omega)] at bitEq
    · have notLow : count ≤ bit := by
        by_contra isLow
        rw [low bit (by omega)] at isSet
        cases isSet
      refine ⟨bit - count, by omega, ?_⟩
      rw [BitVec.getLsbD_ushiftRight, Nat.add_sub_cancel' notLow]
      exact isSet
  · rw [if_neg none]
    refine ⟨⟨zeros, foundEq, passed⟩, ?_⟩
    by_contra nothing
    refine none ((and_lowBits_eq_zero_iff small found.1).mpr fun lower below => ?_)
    rw [← Bool.not_eq_true]
    exact fun isSet => nothing ⟨lower, below, isSet⟩

/-- The search passes over the zeros below the lowest bit that is set. -/
theorem skipZeros_spec
    {bitword : BitVec 32} (position : Nat)
    (nonzero : bitword ≠ 0) :
    ∃ zeros, skipZeros (bitword, position) = (bitword >>> zeros, position + zeros) ∧
      (∀ bit < zeros, bitword.getLsbD bit = false) ∧ bitword.getLsbD zeros = true := by
  have start : Found bitword position (16 + 16) (bitword, position) := by
    refine ⟨⟨0, by simp, by simp⟩, ?_⟩
    by_contra nothing
    refine nonzero (BitVec.eq_of_getLsbD_eq fun bit below => ?_)
    rw [BitVec.ofNat_eq_ofNat, BitVec.getLsbD_zero, ← Bool.not_eq_true]
    exact fun isSet => nothing ⟨bit, below, isSet⟩
  have eight : Found bitword position (8 + 8) _ := start.skip (by decide)
  have four : Found bitword position (4 + 4) _ := eight.skip (by decide)
  have two : Found bitword position (2 + 2) _ := four.skip (by decide)
  have one : Found bitword position (1 + 1) _ := two.skip (by decide)
  have found := one.skip (by decide)
  obtain ⟨⟨zeros, foundEq, passed⟩, bit, within, isSet⟩ := found
  have isFirst : bit = 0 := by
    omega
  rw [foundEq, isFirst, BitVec.getLsbD_ushiftRight, Nat.add_zero] at isSet
  exact ⟨zeros, foundEq, passed, isSet⟩

/-! ## All bits that are set -/

/-- Scanning lists the positions of the bits that are set, in order. -/
theorem scanWord_eq
    (rounds : Nat) {width : Nat} (bitword : BitVec 32) (position : Nat)
    (enough : width ≤ rounds)
    (narrow : ∀ bit, width ≤ bit → bitword.getLsbD bit = false) :
    scanWord rounds bitword position =
      (List.range' position width).filter fun place => bitword.getLsbD (place - position) := by
  induction rounds generalizing width bitword position with
  | zero =>
      have none : width = 0 := by
        omega
      simp [scanWord, none]
  | succ rounds inductionHypothesis =>
      rw [scanWord]
      by_cases isZero : bitword = 0
      · simp [isZero]
      · rw [if_neg isZero]
        obtain ⟨zeros, found, passed, isSet⟩ := skipZeros_spec position isZero
        have below : zeros < width := by
          by_contra notBelow
          rw [narrow zeros (by omega)] at isSet
          cases isSet
        have split : List.range' position width = List.range' position zeros ++
            (position + zeros) :: List.range' (position + zeros + 1) (width - zeros - 1) := by
          rw [← List.range'_succ, List.range'_append_1]
          congr 1
          omega
        have before : ((List.range' position zeros).filter fun place =>
            bitword.getLsbD (place - position)) = [] := by
          apply List.filter_eq_nil_iff.mpr
          intro place member
          have inside := List.mem_range'_1.mp member
          simp [passed (place - position) (by omega)]
        have after : ((List.range' (position + zeros + 1) (width - zeros - 1)).filter fun place =>
              bitword.getLsbD (place - position)) =
            (List.range' (position + zeros + 1) (width - zeros - 1)).filter fun place =>
              (bitword >>> zeros >>> 1).getLsbD (place - (position + zeros + 1)) := by
          apply List.filter_congr
          intro place member
          have inside := List.mem_range'_1.mp member
          rw [← BitVec.shiftRight_add, BitVec.getLsbD_ushiftRight]
          congr 1
          omega
        have rest := @inductionHypothesis (width - zeros - 1) (bitword >>> zeros >>> 1)
          (position + zeros + 1) (by omega) fun bit above => by
            rw [← BitVec.shiftRight_add, BitVec.getLsbD_ushiftRight]
            exact narrow _ (by omega)
        have isSetHere : bitword.getLsbD (position + zeros - position) = true := by
          rwa [Nat.add_sub_cancel_left]
        rw [split, List.filter_append, before, List.nil_append, List.filter_cons, if_pos isSetHere,
          after, ← rest, found]

end PicoJvm.Lib.BitScan
