import Mathlib.Algebra.Order.Group.Nat
import PicoJvm.Inflate.CanonicalCode
import PicoJvm.Inflate.CodeTable

/-!
# First codes and table sizes

What the loops of `make_code_table` over the code lengths compute, and that the tables for the
quick bits they choose can be pointed to.
-/

namespace PicoJvm.Inflate

open PicoJvm.Lib.BitReversal

/-! ## Reversing 15 bits -/

theorem reverse5_eq
    {bits : Nat}
    (inside : bits < 32) :
    reverse5.getD bits 0 = reverse 5 bits := by
  revert bits
  decide

theorem reverse15Bits_eq
    {code : Nat}
    (inside : code < 2 ^ 15) :
    reverse15Bits code = reverse 15 code := by
  have low : reverse 5 (code &&& 0x1F) = reverse 5 code := by
    rw [show (0x1F : Nat) = 2 ^ 5 - 1 from rfl, Nat.and_two_pow_sub_one_eq_mod]
    exact reverse_mod 5 code
  have middle : reverse 5 ((code >>> 5) &&& 0x1F) = reverse 5 (code / 2 ^ 5) := by
    rw [show (0x1F : Nat) = 2 ^ 5 - 1 from rfl, Nat.and_two_pow_sub_one_eq_mod,
      Nat.shiftRight_eq_div_pow]
    exact reverse_mod 5 (code / 2 ^ 5)
  have high : code >>> 10 = code / 2 ^ 5 / 2 ^ 5 := by
    rw [Nat.shiftRight_eq_div_pow, Nat.div_div_eq_div_mul]
    rfl
  have below := fun bits => Nat.lt_succ_of_le (Nat.and_le_right (n := bits) (m := 0x1F))
  have middleBound := reverse_lt 5 (code / 2 ^ 5)
  have highBound := reverse_lt 5 (code / 2 ^ 5 / 2 ^ 5)
  have split : reverse 15 code = reverse 5 code * 2 ^ 10 + reverse 10 (code / 2 ^ 5) :=
    reverse_add 5 10 code
  have splitAgain : reverse 10 (code / 2 ^ 5) =
      reverse 5 (code / 2 ^ 5) * 2 ^ 5 + reverse 5 (code / 2 ^ 5 / 2 ^ 5) :=
    reverse_add 5 5 (code / 2 ^ 5)
  have joined : reverse 5 code <<< 10 + reverse 5 (code / 2 ^ 5) <<< 5 =
      (reverse 5 code * 32 + reverse 5 (code / 2 ^ 5)) <<< 5 := by
    rw [Nat.shiftLeft_eq, Nat.shiftLeft_eq, Nat.shiftLeft_eq]
    omega
  unfold reverse15Bits
  rw [reverse5_eq (below _), reverse5_eq (below _), reverse5_eq (by omega), low, middle, high,
    ← Nat.shiftLeft_add_eq_or_of_lt (by rw [Nat.shiftLeft_eq]; omega), joined,
    ← Nat.shiftLeft_add_eq_or_of_lt highBound, Nat.shiftLeft_eq, split, splitAgain]
  omega

/-! ## Counting -/

theorem modify_getD (counts : List Nat) (place bits : Nat) (inside : place < counts.length) :
    (counts.modify place (· + 1)).getD bits 0 =
      counts.getD bits 0 + if bits = place then 1 else 0 := by
  rw [List.getD_eq_getElem?_getD, List.getElem?_modify, List.getD_eq_getElem?_getD]
  by_cases same : place = bits
  · subst same
    simp [List.getElem?_eq_getElem inside]
  · have notSame : ¬ bits = place := fun equal => same equal.symm
    simp [same, notSame]

theorem foldl_modify_getD
    (codelen counts : List Nat)
    (inside : ∀ length ∈ codelen, length < counts.length)
    (bits : Nat) :
    (codelen.foldl (fun counts bits => counts.modify bits (· + 1)) counts).getD bits 0 =
      counts.getD bits 0 + codelen.count bits := by
  induction codelen generalizing counts with
  | nil => simp
  | cons length codelen induction =>
      have here := inside length (List.mem_cons_self ..)
      rw [List.foldl_cons, induction _ (fun later member => by
        rw [List.length_modify]
        exact inside later (List.mem_cons_of_mem _ member)), modify_getD counts length bits here,
        List.count_cons]
      by_cases same : bits = length
      · simp [same]
        omega
      · have notSame : (length == bits) = false := beq_eq_false_iff_ne.mpr (Ne.symm same)
        simp [same, notSame]

section Alphabet

variable (alphabet : CodeLengths)

theorem bitLengthCount_getD (bits : Nat) :
    (bitLengthCount alphabet.lengths).getD bits 0 = alphabet.lengths.count bits := by
  have zero : ∀ count, (List.replicate count 0).getD bits 0 = 0 := by
    intro count
    rw [List.getD_eq_getElem?_getD, List.getElem?_replicate]
    split <;> rfl
  unfold bitLengthCount
  rw [foldl_modify_getD]
  · rw [zero, Nat.zero_add]
  · intro length member
    rw [List.length_replicate]
    exact Nat.lt_succ_of_le (alphabet.length_le length member)

/-- The greatest length of a code. -/
def CodeLengths.maxLength : Nat :=
  maxCodeLen (bitLengthCount alphabet.lengths) maxBits

theorem maxCodeLen_le (counts : List Nat) (bits : Nat) : maxCodeLen counts bits ≤ bits := by
  induction bits with
  | zero => exact Nat.le_refl 0
  | succ bits induction =>
      unfold maxCodeLen
      split
      · exact Nat.le_refl _
      · exact Nat.le_succ_of_le induction

theorem maxCodeLen_above
    (counts : List Nat)
    {bits length : Nat}
    (above : maxCodeLen counts bits < length)
    (inside : length ≤ bits) :
    counts.getD length 0 = 0 := by
  induction bits with
  | zero => omega
  | succ bits induction =>
      unfold maxCodeLen at above
      split at above
      · omega
      · rename_i none
        by_cases here : length = bits + 1
        · subst here
          exact Decidable.not_not.mp none
        · exact induction above (by omega)

variable {alphabet}

theorem maxLength_le : alphabet.maxLength ≤ 15 :=
  maxCodeLen_le _ _

theorem length_le_maxLength
    {symbol : Nat}
    (coded : alphabet.IsCoded symbol) :
    alphabet.length symbol ≤ alphabet.maxLength := by
  by_contra above
  have none := maxCodeLen_above (bitLengthCount alphabet.lengths) (Nat.not_le.mp above)
    (length_le symbol)
  rw [bitLengthCount_getD, List.count_eq_zero] at none
  apply none
  unfold CodeLengths.length
  rw [List.getD_eq_getElem?_getD, List.getElem?_eq_getElem coded.inside]
  exact List.getElem_mem coded.inside

/-! ## First codes -/

theorem firstCodes_succ (counts : List Nat) (lengths : Nat) :
    firstCodes counts (lengths + 1) =
      firstCode counts (firstCodes counts lengths) (lengths + 1) := by
  unfold firstCodes
  rw [List.range'_1_concat, List.foldl_append, Nat.add_comm 1 lengths]
  rfl

/-- The first code of a length follows the words of the shorter ones. -/
theorem firstCodes_eq
    {lengths : Nat}
    (inside : lengths ≤ 15) :
    (firstCodes (bitLengthCount alphabet.lengths) lengths).codes.length = 16 ∧
      (firstCodes (bitLengthCount alphabet.lengths) lengths).code =
        space alphabet.lengths lengths ∧
      ∀ bits, 0 < bits → bits ≤ lengths →
        (firstCodes (bitLengthCount alphabet.lengths) lengths).codes.getD bits 0 =
          space alphabet.lengths (bits - 1) := by
  induction lengths with
  | zero =>
      refine ⟨rfl, (space_zero _).symm, ?_⟩
      intro bits positive atMost
      omega
  | succ lengths induction =>
      obtain ⟨size, code, codes⟩ := induction (by omega)
      rw [firstCodes_succ]
      unfold firstCode
      refine ⟨?_, ?_, ?_⟩
      · rw [List.length_set, size]
      · dsimp only
        rw [code, space_succ, bitLengthCount_getD, Nat.shiftLeft_eq]
        split
        · rfl
        · rename_i none
          rw [Decidable.not_not.mp none, Nat.zero_mul, Nat.add_zero]
      · intro bits positive atMost
        dsimp only
        rw [List.getD_eq_getElem?_getD, List.getElem?_set]
        by_cases here : lengths + 1 = bits
        · subst here
          rw [if_pos rfl, if_pos (by omega), code]
          rfl
        · rw [if_neg here, ← List.getD_eq_getElem?_getD]
          exact codes bits positive (by omega)

/-- Words of codes of at most a length come in whole ranges of that length. -/
theorem space_dvd
    (lengths : List Nat)
    {bits : Nat}
    (inside : bits ≤ 15) :
    2 ^ (15 - bits) ∣ space lengths bits := by
  induction lengths with
  | nil => simp [space]
  | cons length lengths induction =>
      rw [space_cons]
      refine Nat.dvd_add ?_ induction
      split
      · rename_i short
        exact Nat.pow_dvd_pow 2 (by omega)
      · exact Nat.dvd_zero _

/-- The words of longer codes are few when there are few symbols. -/
theorem space_tail
    (lengths : List Nat)
    (bits length : Nat) :
    space lengths length ≤ space lengths bits + lengths.length * 2 ^ (14 - bits) := by
  induction lengths with
  | nil => simp [space]
  | cons first lengths induction =>
      rw [space_cons, space_cons, List.length_cons, Nat.succ_mul]
      have here : (if 0 < first ∧ first ≤ length then 2 ^ (15 - first) else 0) ≤
          (if 0 < first ∧ first ≤ bits then 2 ^ (15 - first) else 0) + 2 ^ (14 - bits) := by
        by_cases short : 0 < first ∧ first ≤ bits
        · rw [if_pos short]
          split
          · exact Nat.le_add_right _ _
          · exact Nat.zero_le _
        · rw [if_neg short]
          split
          · have power : 2 ^ (15 - first) ≤ 2 ^ (14 - bits) :=
              Nat.pow_le_pow_right (by decide) (by omega)
            omega
          · exact Nat.zero_le _
      omega

theorem space_le (alphabet : CodeLengths) (bits : Nat) (inside : bits ≤ 15) :
    space alphabet.lengths bits ≤ 2 ^ 15 :=
  Nat.le_trans (space_mono _ inside) alphabet.notOversubscribed

theorem space_maxLength (alphabet : CodeLengths) :
    space alphabet.lengths alphabet.maxLength = space alphabet.lengths 15 := by
  unfold space
  congr 1
  apply List.map_congr_left
  intro length member
  obtain ⟨symbol, inside, rfl⟩ := List.mem_iff_getElem.mp member
  have length_eq : alphabet.length symbol = alphabet.lengths[symbol] := by
    unfold CodeLengths.length
    rw [List.getD_eq_getElem?_getD, List.getElem?_eq_getElem inside]
    rfl
  have atMost := alphabet.length_le _ member
  by_cases positive : 0 < alphabet.lengths[symbol]
  · have coded : alphabet.IsCoded symbol :=
      ⟨inside, Nat.lt_of_lt_of_eq positive length_eq.symm⟩
    have below := length_le_maxLength coded
    rw [length_eq] at below
    simp only [positive, below, atMost, true_and, if_true]
  · simp only [positive, false_and, if_false]

/-! ## The quick bits -/

/-- Every long table can be pointed to: the ranges of words that come before it, with as many
bits as the quick ones, do not fill up the offsets of 15 bits. -/
def Fits (alphabet : CodeLengths) (quickBits : Nat) : Prop :=
  ∀ before, before * 2 ^ (15 - quickBits) <
      space alphabet.lengths 15 - space alphabet.lengths quickBits →
    2 ^ quickBits + before * 2 ^ (alphabet.maxLength - quickBits) < 16382

/-- The loop over the quick bits, up to a length. -/
def choicesTo (counts : List Nat) (maxCodeLen bits : Nat) : Choice :=
  (List.range' 1 bits).foldl (choose counts maxCodeLen)
    ⟨⟨List.replicate (maxBits + 1) 0, 0⟩, 0, 0⟩

theorem choicesTo_succ (counts : List Nat) (maxCodeLen bits : Nat) :
    choicesTo counts maxCodeLen (bits + 1) =
      choose counts maxCodeLen (choicesTo counts maxCodeLen bits) (bits + 1) := by
  unfold choicesTo
  rw [List.range'_1_concat, List.foldl_append, Nat.add_comm 1 bits]
  rfl

theorem choicesTo_first (counts : List Nat) (maxCodeLen bits : Nat) :
    (choicesTo counts maxCodeLen bits).first = firstCodes counts bits := by
  induction bits with
  | zero => rfl
  | succ bits induction =>
      rw [choicesTo_succ, firstCodes_succ, ← induction]
      unfold choose
      dsimp only
      split <;> rfl

/-- The quick bits that are chosen make the tables smallest. -/
theorem choicesTo_smallest
    (maxCodeLen : Nat)
    {bits : Nat}
    (positive : 0 < bits)
    (inside : bits ≤ 15) :
    let choice := choicesTo (bitLengthCount alphabet.lengths) maxCodeLen bits
    0 < choice.optQuickBits ∧ choice.optQuickBits ≤ bits ∧
      choice.optTableSize =
        tableSize maxCodeLen (space alphabet.lengths choice.optQuickBits) choice.optQuickBits ∧
      ∀ quickBits, 0 < quickBits → quickBits ≤ bits →
        choice.optTableSize ≤ tableSize maxCodeLen (space alphabet.lengths quickBits) quickBits := by
  induction bits with
  | zero => omega
  | succ bits induction =>
      have first : (firstCode (bitLengthCount alphabet.lengths)
          (choicesTo (bitLengthCount alphabet.lengths) maxCodeLen bits).first (bits + 1)).code =
          space alphabet.lengths (bits + 1) := by
        rw [choicesTo_first, ← firstCodes_succ]
        exact (firstCodes_eq inside).2.1
      rw [choicesTo_succ]
      unfold choose
      dsimp only
      rw [first]
      by_cases start : bits = 0
      · subst start
        rw [if_pos (.inl rfl)]
        refine ⟨positive, Nat.le_refl _, rfl, ?_⟩
        intro quickBits positive' atMost
        obtain rfl : quickBits = 1 := by omega
        exact Nat.le_refl _
      · obtain ⟨some, atMost, size, smallest⟩ := induction (by omega) (by omega)
        split
        · rename_i smaller
          refine ⟨Nat.succ_pos _, Nat.le_refl _, rfl, ?_⟩
          intro quickBits positive' atMost'
          by_cases here : quickBits = bits + 1
          · subst here
            exact Nat.le_refl _
          · have before := smallest quickBits positive' (by omega)
            dsimp only
            omega
        · rename_i notSmaller
          refine ⟨some, Nat.le_succ_of_le atMost, size, ?_⟩
          intro quickBits positive' atMost'
          by_cases here : quickBits = bits + 1
          · subst here
            dsimp only
            omega
          · exact smallest quickBits positive' (by omega)

/-- A table size, in words of 15 bits. -/
theorem tableSize_scaled
    {maxCodeLen bits : Nat}
    (atMost : bits ≤ maxCodeLen)
    (inside : maxCodeLen ≤ 15) :
    tableSize maxCodeLen (space alphabet.lengths bits) bits * 2 ^ (15 - maxCodeLen) +
        space alphabet.lengths bits =
      2 ^ 15 + 2 ^ bits * 2 ^ (15 - maxCodeLen) := by
  have bound := space_le alphabet bits (Nat.le_trans atMost inside)
  have power : 2 ^ (15 - bits) = 2 ^ (maxCodeLen - bits) * 2 ^ (15 - maxCodeLen) := by
    rw [← Nat.pow_add]
    congr 1
    omega
  obtain ⟨ranges, rangesEq⟩ : 2 ^ (15 - bits) ∣ 2 ^ 15 - space alphabet.lengths bits :=
    Nat.dvd_sub (Nat.pow_dvd_pow 2 (by omega)) (space_dvd _ (Nat.le_trans atMost inside))
  unfold tableSize maxBits
  rw [Nat.one_shiftLeft, Nat.one_shiftLeft, Nat.shiftRight_eq_div_pow, Nat.shiftLeft_eq, rangesEq,
    Nat.mul_div_cancel_left _ (Nat.two_pow_pos _), Nat.add_mul, Nat.mul_assoc, ← power,
    Nat.mul_comm ranges, ← rangesEq]
  omega

/-- Quick bits that make the tables smallest fit. -/
theorem fits_of_smallest
    {quickBits : Nat}
    (positive : 0 < alphabet.maxLength)
    (atMost : quickBits ≤ alphabet.maxLength)
    (smallest : ∀ bits, 0 < bits → bits ≤ alphabet.maxLength →
      space alphabet.lengths bits + 2 ^ quickBits * 2 ^ (15 - alphabet.maxLength) ≤
        space alphabet.lengths quickBits + 2 ^ bits * 2 ^ (15 - alphabet.maxLength)) :
    Fits alphabet quickBits := by
  intro before words
  have maxLe : alphabet.maxLength ≤ 15 := maxLength_le
  have whole := space_maxLength alphabet
  have power : 2 ^ (alphabet.maxLength - quickBits) * 2 ^ (15 - alphabet.maxLength) =
      2 ^ (15 - quickBits) := by
    rw [← Nat.pow_add]
    congr 1
    omega
  have scaled : (2 ^ quickBits + before * 2 ^ (alphabet.maxLength - quickBits)) *
      2 ^ (15 - alphabet.maxLength) =
        2 ^ quickBits * 2 ^ (15 - alphabet.maxLength) + before * 2 ^ (15 - quickBits) := by
    rw [Nat.add_mul, Nat.mul_assoc before, power]
  have tail : ∀ bits, bits ≤ 14 →
      space alphabet.lengths 15 ≤ space alphabet.lengths bits + 2 ^ (25 - bits) := by
    intro bits bitsLe
    have few := Nat.mul_le_mul_right (2 ^ (14 - bits)) alphabet.symbols_le
    have power : 2048 * 2 ^ (14 - bits) = 2 ^ (25 - bits) := by
      rw [show (2048 : Nat) = 2 ^ 11 from rfl, ← Nat.pow_add]
      congr 1
      omega
    have longer := space_tail alphabet.lengths bits 15
    omega
  generalize before * 2 ^ (15 - quickBits) = wordsBefore at words scaled
  generalize 2 ^ quickBits + before * 2 ^ (alphabet.maxLength - quickBits) = entries at scaled ⊢
  generalize alphabet.maxLength = length at *
  by_cases short : length ≤ 12
  · have atLength := smallest length positive (Nat.le_refl _)
    have below : entries * 2 ^ (15 - length) < 2 ^ length * 2 ^ (15 - length) := by
      generalize 2 ^ length * 2 ^ (15 - length) = full at atLength ⊢
      generalize 2 ^ quickBits * 2 ^ (15 - length) = main at atLength scaled
      generalize entries * 2 ^ (15 - length) = words' at scaled ⊢
      omega
    have few := Nat.lt_of_mul_lt_mul_right below
    have bound : 2 ^ length ≤ 2 ^ 12 := Nat.pow_le_pow_right (by decide) short
    omega
  · have atTwelve := smallest 12 (by decide) (by omega)
    have atThirteen := smallest 13 (by decide) (by omega)
    have behindTwelve := tail 12 (by decide)
    have behindThirteen := tail 13 (by decide)
    rcases (by omega : quickBits ≤ 12 ∨ quickBits = 13 ∨ quickBits = 14 ∨ quickBits = 15) with
      few | rfl | rfl | rfl
    · generalize 2 ^ quickBits * 2 ^ (15 - length) = main at scaled atTwelve atThirteen
      rcases (by omega : length = 13 ∨ length = 14 ∨ length = 15) with rfl | rfl | rfl
      · omega
      · omega
      · omega
    · rcases (by omega : length = 13 ∨ length = 14 ∨ length = 15) with rfl | rfl | rfl
      · omega
      · omega
      · omega
    · rcases (by omega : length = 14 ∨ length = 15) with rfl | rfl
      · omega
      · omega
    · omega

/-- The quick bits that the loop chooses fit. -/
theorem choices_fits
    (positive : 0 < alphabet.maxLength) :
    let choice := choices (bitLengthCount alphabet.lengths) alphabet.maxLength
    0 < choice.optQuickBits ∧ choice.optQuickBits ≤ alphabet.maxLength ∧
      Fits alphabet choice.optQuickBits := by
  have maxLe : alphabet.maxLength ≤ 15 := maxLength_le
  obtain ⟨some, atMost, size, smallest⟩ :=
    @choicesTo_smallest alphabet alphabet.maxLength _ positive maxLe
  refine ⟨some, atMost, fits_of_smallest positive atMost ?_⟩
  intro bits bitsPositive bitsLe
  have chosen := @tableSize_scaled alphabet _ _ atMost maxLe
  have other := @tableSize_scaled alphabet _ _ bitsLe maxLe
  rw [size] at smallest
  have larger := Nat.mul_le_mul_right (2 ^ (15 - alphabet.maxLength))
    (smallest bits bitsPositive bitsLe)
  change space alphabet.lengths bits + 2 ^ (choicesTo (bitLengthCount alphabet.lengths)
    alphabet.maxLength alphabet.maxLength).optQuickBits * _ ≤ space alphabet.lengths
      (choicesTo (bitLengthCount alphabet.lengths) alphabet.maxLength
        alphabet.maxLength).optQuickBits + _
  omega

end Alphabet

end PicoJvm.Inflate
