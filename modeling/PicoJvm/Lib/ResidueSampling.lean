import Mathlib.Data.Finset.Card
import Mathlib.Data.Finset.Prod
import Mathlib.Data.Nat.ModEq

/-!
# Sampling residues by rejection

The residues of a number drawn below a bound are equally frequent when the draws of the last
block, which the bound may cut, are rejected. A draw that is the upper part of a longer number is
as frequent as any other.
-/

namespace PicoJvm.Lib.ResidueSampling

/-- A draw whose whole block of residues is below the bound. -/
def Accepted (bound modulus draw : Nat) : Prop :=
  draw - draw % modulus + modulus ≤ bound

instance (bound modulus draw : Nat) : Decidable (Accepted bound modulus draw) :=
  inferInstanceAs (Decidable (_ ≤ _))

theorem accepted_zero
    {bound modulus : Nat}
    (atMost : modulus ≤ bound) :
    Accepted bound modulus 0 := by
  simpa [Accepted] using atMost

/-- The accepted draws of a residue are those of the whole blocks. -/
theorem accepted_iff
    {bound modulus residue draw : Nat}
    (below : residue < modulus) :
    draw < bound ∧ Accepted bound modulus draw ∧ draw % modulus = residue ↔
      ∃ block < bound / modulus, block * modulus + residue = draw := by
  have positive : 0 < modulus := by
    omega
  have parts := Nat.div_add_mod' draw modulus
  constructor
  · intro accepted
    obtain ⟨_, whole, rest⟩ := accepted
    refine ⟨draw / modulus, ?_, by omega⟩
    rw [Accepted] at whole
    have wholeBlock : (draw / modulus + 1) * modulus ≤ bound := by
      rw [Nat.add_mul, Nat.one_mul]
      omega
    exact (Nat.le_div_iff_mul_le positive).mpr wholeBlock
  · intro inBlock
    obtain ⟨block, blockBelow, rfl⟩ := inBlock
    have wholeBlock : (block + 1) * modulus ≤ bound :=
      (Nat.le_div_iff_mul_le positive).mp blockBelow
    have rest : (block * modulus + residue) % modulus = residue := by
      rw [Nat.mul_add_mod', Nat.mod_eq_of_lt below]
    rw [Nat.add_mul, Nat.one_mul] at wholeBlock
    refine ⟨by omega, ?_, rest⟩
    rw [Accepted, rest]
    omega

/-- Every residue has as many accepted draws as there are whole blocks. -/
theorem card_accepted
    {bound modulus residue : Nat}
    (below : residue < modulus) :
    ((Finset.range bound).filter fun draw =>
        Accepted bound modulus draw ∧ draw % modulus = residue).card = bound / modulus := by
  have blocks : ((Finset.range bound).filter fun draw =>
        Accepted bound modulus draw ∧ draw % modulus = residue) =
      (Finset.range (bound / modulus)).image fun block => block * modulus + residue := by
    ext draw
    simp only [Finset.mem_filter, Finset.mem_range, Finset.mem_image]
    exact accepted_iff below
  rw [blocks, Finset.card_image_of_injective, Finset.card_range]
  intro block block' same
  exact Nat.eq_of_mul_eq_mul_right (show 0 < modulus by omega) (Nat.add_right_cancel same)

/-- Each upper part has as many numbers as there are lower parts. -/
theorem card_upper
    (bound : Nat) {lower : Nat}
    (positive : 0 < lower)
    (property : Nat → Prop) [DecidablePred property] :
    ((Finset.range (bound * lower)).filter fun number => property (number / lower)).card =
      ((Finset.range bound).filter property).card * lower := by
  have pairs : ((Finset.range bound).filter property ×ˢ Finset.range lower).image
        (fun parts => parts.1 * lower + parts.2) =
      (Finset.range (bound * lower)).filter fun number => property (number / lower) := by
    ext number
    simp only [Finset.mem_image, Finset.mem_product, Finset.mem_filter, Finset.mem_range,
      Prod.exists]
    constructor
    · intro isPair
      obtain ⟨upper, rest, ⟨⟨upperBelow, holds⟩, restBelow⟩, rfl⟩ := isPair
      have quotient : (upper * lower + rest) / lower = upper := by
        rw [Nat.mul_comm, Nat.mul_add_div positive, Nat.div_eq_of_lt restBelow, Nat.add_zero]
      rw [quotient]
      refine ⟨?_, holds⟩
      rw [← Nat.div_lt_iff_lt_mul positive, quotient]
      exact upperBelow
    · intro isNumber
      obtain ⟨numberBelow, holds⟩ := isNumber
      exact ⟨number / lower, number % lower,
        ⟨⟨(Nat.div_lt_iff_lt_mul positive).mpr numberBelow, holds⟩, Nat.mod_lt _ positive⟩,
        Nat.div_add_mod' number lower⟩
  rw [← pairs, Finset.card_image_of_injOn, Finset.card_product, Finset.card_range]
  intro parts isPair parts' isPair' same
  have restBelow : parts.2 < lower :=
    Finset.mem_range.mp (Finset.mem_product.mp isPair).2
  have restBelow' : parts'.2 < lower :=
    Finset.mem_range.mp (Finset.mem_product.mp isPair').2
  have upperEq : parts.1 = parts'.1 := by
    have quotients := congrArg (· / lower) same
    simpa [Nat.mul_comm, Nat.mul_add_div positive, Nat.div_eq_of_lt restBelow,
      Nat.div_eq_of_lt restBelow'] using quotients
  have restEq : parts.2 = parts'.2 := by
    simpa [upperEq] using same
  exact Prod.ext upperEq restEq

end PicoJvm.Lib.ResidueSampling
