import Mathlib.Data.Nat.ModEq
import Mathlib.Data.Finset.Card
import Mathlib.Tactic.Ring

/-!
# Congruential sequences modulo a power of two

A sequence in which each number is a multiple of the one before it, and a constant, modulo a power
of two. When the multiplier is one more than a multiple of four and the constant is odd, the
sequence comes by every number below the modulus, from every start.
-/

namespace PicoJvm.Lib.Congruential

/-- The number after one, when nothing is cut off. -/
def affine (multiplier addend number : Nat) : Nat :=
  multiplier * number + addend

/-- The number after one, below a modulus. -/
def next (multiplier addend modulus number : Nat) : Nat :=
  affine multiplier addend number % modulus

theorem next_lt
    (multiplier addend number : Nat) {modulus : Nat}
    (positive : 0 < modulus) :
    next multiplier addend modulus number < modulus :=
  Nat.mod_lt _ positive

/-! ## Several steps -/

section Steps

variable {multiplier addend : Nat}

/-- Cutting off at each step is the same as cutting off once, at the end. -/
theorem iterate_next_modEq (modulus steps number : Nat) :
    (next multiplier addend modulus)^[steps] number ≡ (affine multiplier addend)^[steps] number
      [MOD modulus] := by
  induction steps with
  | zero =>
      rfl
  | succ steps inductionHypothesis =>
      rw [Function.iterate_succ_apply', Function.iterate_succ_apply']
      calc
        next multiplier addend modulus ((next multiplier addend modulus)^[steps] number) ≡
            affine multiplier addend ((next multiplier addend modulus)^[steps] number)
            [MOD modulus] := Nat.mod_modEq _ modulus
        _ ≡ affine multiplier addend ((affine multiplier addend)^[steps] number) [MOD modulus] :=
          (inductionHypothesis.mul_left multiplier).add_right addend

/-- As many steps as a power of two are one affine step whose multiplier is one modulo four times
that power, and whose addend is an odd multiple of it. -/
theorem iterate_affine_two_pow
    (isOne : multiplier % 4 = 1)
    (isOdd : addend % 2 = 1)
    (power : Nat) :
    ∃ slope offset, ∀ number, (affine multiplier addend)^[2 ^ power] number =
      (2 ^ power * (4 * slope) + 1) * number + 2 ^ power * (2 * offset + 1) := by
  induction power with
  | zero =>
      refine ⟨multiplier / 4, addend / 2, fun number => ?_⟩
      have slope : 4 * (multiplier / 4) + 1 = multiplier := by
        omega
      have offset : 2 * (addend / 2) + 1 = addend := by
        omega
      simp [affine, slope, offset]
  | succ power inductionHypothesis =>
      obtain ⟨slope, offset, steps⟩ := inductionHypothesis
      refine ⟨slope + 2 * 2 ^ power * slope * slope,
        offset + 2 ^ power * slope * (2 * offset + 1), fun number => ?_⟩
      rw [pow_succ, Nat.mul_two, Function.iterate_add_apply, steps, steps]
      ring

/-- As many steps as a power of two change the bit of that power, and none below it. -/
theorem iterate_affine_modEq
    (isOne : multiplier % 4 = 1)
    (isOdd : addend % 2 = 1)
    (power number : Nat) :
    (affine multiplier addend)^[2 ^ power] number ≡ number + 2 ^ power [MOD 2 ^ (power + 1)] := by
  obtain ⟨slope, offset, steps⟩ := iterate_affine_two_pow isOne isOdd power
  have split : (2 ^ power * (4 * slope) + 1) * number + 2 ^ power * (2 * offset + 1) =
      number + 2 ^ power + 2 ^ (power + 1) * (2 * slope * number + offset) := by
    ring
  rw [steps, split]
  exact Nat.modEq_iff_dvd.mpr ⟨-(2 * slope * number + offset : Nat), by push_cast; ring⟩

/-- Numbers that agree below a bit, and not in it, agree when the bit is added to one of them. -/
theorem modEq_of_differ
    {power number goal : Nat}
    (agree : number ≡ goal [MOD 2 ^ power])
    (differ : ¬ number ≡ goal [MOD 2 ^ (power + 1)]) :
    number + 2 ^ power ≡ goal [MOD 2 ^ (power + 1)] := by
  obtain ⟨quotient, difference⟩ := Nat.modEq_iff_dvd.mp agree
  rcases Int.even_or_odd' quotient with ⟨half, even | odd⟩
  · refine absurd (Nat.modEq_iff_dvd.mpr ⟨half, ?_⟩) differ
    rw [difference, even]
    push_cast
    ring
  · refine Nat.modEq_iff_dvd.mpr ⟨half, ?_⟩
    have split : (goal : Int) - (number + 2 ^ power : Nat) = goal - number - 2 ^ power := by
      push_cast
      ring
    rw [split, difference, odd]
    push_cast
    ring

/-- From every number each residue is reached, in fewer steps than there are residues. -/
theorem exists_iterate_affine_modEq
    (isOne : multiplier % 4 = 1)
    (isOdd : addend % 2 = 1)
    (power start goal : Nat) :
    ∃ steps < 2 ^ power, (affine multiplier addend)^[steps] start ≡ goal [MOD 2 ^ power] := by
  induction power with
  | zero =>
      exact ⟨0, by simp, by simp [Nat.modEq_one]⟩
  | succ power inductionHypothesis =>
      obtain ⟨steps, below, reached⟩ := inductionHypothesis
      have doubled : 2 ^ (power + 1) = 2 ^ power + 2 ^ power := by
        rw [pow_succ, Nat.mul_two]
      by_cases exactly : (affine multiplier addend)^[steps] start ≡ goal [MOD 2 ^ (power + 1)]
      · exact ⟨steps, by omega, exactly⟩
      · -- the bit of the power differs: as many further steps turn it
        refine ⟨2 ^ power + steps, by omega, ?_⟩
        rw [Function.iterate_add_apply]
        exact (iterate_affine_modEq isOne isOdd power _).trans (modEq_of_differ reached exactly)

/-- From every number each number below the modulus is reached, within as many steps as
there are numbers. -/
theorem exists_iterate_next
    (isOne : multiplier % 4 = 1)
    (isOdd : addend % 2 = 1)
    {power goal : Nat} (start : Nat)
    (below : goal < 2 ^ power) :
    ∃ steps < 2 ^ power, (next multiplier addend (2 ^ power))^[steps + 1] start = goal := by
  -- the last step cuts off, also when the start is not below the modulus
  obtain ⟨steps, stepsBelow, reached⟩ :=
    exists_iterate_affine_modEq isOne isOdd power (affine multiplier addend start) goal
  refine ⟨steps, stepsBelow, ?_⟩
  have isLast : (next multiplier addend (2 ^ power))^[steps + 1] start < 2 ^ power := by
    rw [Function.iterate_succ_apply']
    exact next_lt multiplier addend _ (Nat.two_pow_pos power)
  have same : (next multiplier addend (2 ^ power))^[steps + 1] start ≡
      (affine multiplier addend)^[steps + 1] start [MOD 2 ^ power] :=
    iterate_next_modEq (2 ^ power) (steps + 1) start
  rw [Function.iterate_succ_apply (affine multiplier addend)] at same
  exact (same.trans reached).eq_of_lt_of_lt isLast below

end Steps

/-! ## Counting -/

/-- A step is a permutation of the numbers below the modulus when the multiplier is prime to it. -/
theorem image_next
    {multiplier addend modulus : Nat}
    (coprime : modulus.Coprime multiplier)
    (positive : 0 < modulus) :
    (Finset.range modulus).image (next multiplier addend modulus) = Finset.range modulus := by
  apply Finset.eq_of_subset_of_card_le
  · intro number isImage
    obtain ⟨source, _, rfl⟩ := Finset.mem_image.mp isImage
    exact Finset.mem_range.mpr (next_lt multiplier addend source positive)
  · rw [Finset.card_image_of_injOn]
    intro number isBelow number' isBelow' same
    have product : multiplier * number ≡ multiplier * number' [MOD modulus] :=
      Nat.ModEq.add_right_cancel' addend same
    exact (Nat.ModEq.cancel_left_of_coprime coprime product).eq_of_lt_of_lt
      (Finset.mem_range.mp isBelow) (Finset.mem_range.mp isBelow')

/-- As many numbers are followed by one with a property as have the property. -/
theorem card_next
    {multiplier addend modulus : Nat}
    (coprime : modulus.Coprime multiplier)
    (positive : 0 < modulus)
    (property : Nat → Prop) [DecidablePred property] :
    ((Finset.range modulus).filter fun number =>
        property (next multiplier addend modulus number)).card =
      ((Finset.range modulus).filter property).card := by
  have permutes : (Finset.range modulus).image (next multiplier addend modulus) =
      Finset.range modulus := image_next coprime positive
  have injective : Set.InjOn (next multiplier addend modulus) (Finset.range modulus) :=
    Finset.card_image_iff.mp (by rw [permutes])
  have counted : ((Finset.range modulus).filter property).card =
      (((Finset.range modulus).image (next multiplier addend modulus)).filter property).card := by
    rw [permutes]
  rw [counted, Finset.filter_image, Finset.card_image_of_injOn]
  exact injective.mono (Finset.coe_subset.mpr (Finset.filter_subset (fun number =>
    property (next multiplier addend modulus number)) (Finset.range modulus)))

end PicoJvm.Lib.Congruential
