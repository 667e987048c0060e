import Mathlib.Logic.Function.Basic
import PicoJvm.Lib.BitScan

/-!
# Ranges of bits in the bitvector of the heap

The heap has a bit for each of its words, in words of 32 bits. A range of bits is set or cleared in
up to three parts, of which the middle one is whole words of the bitvector; and a range is searched
for its bits a word of the bitvector at a time.

An address of a word is its number of words from address zero, and a word of the bitvector is that
of the addresses that it has the bits of.
-/

namespace PicoJvm.BitRanges

open PicoJvm.Lib.BitScan

/-! ## Bits -/

/-- The words of the bitvector, and of the memory around it. -/
abbrev Bitvector := Nat → BitVec 32

/-- `bitvector_bit_mask`. -/
def bitMask (p : Nat) : BitVec 32 :=
  1#32 <<< (p % 32)

/-- `test_bit_for`. -/
def testBitFor (words : Bitvector) (p : Nat) : Bool :=
  words (p / 32) &&& bitMask p ≠ 0

/-- `set_bit_for`, which is `bit_set` too. -/
def setBitFor (words : Bitvector) (p : Nat) : Bitvector :=
  Function.update words (p / 32) (words (p / 32) ||| bitMask p)

/-- `clear_bit_for`. -/
def clearBitFor (words : Bitvector) (p : Nat) : Bitvector :=
  Function.update words (p / 32) (words (p / 32) &&& ~~~ bitMask p)

/-- `jvm_memset` of whole words. -/
def memset (words : Bitvector) (first count : Nat) (value : BitVec 32) : Bitvector := fun word =>
  if first ≤ word ∧ word < first + count then value else words word

theorem testBitFor_eq (words : Bitvector) (p : Nat) :
    testBitFor words p = (words (p / 32)).getLsbD (p % 32) := by
  have small : p % 32 < 32 := Nat.mod_lt p (by decide)
  have mask : bitMask p = BitVec.twoPow 32 (p % 32) := by
    rw [bitMask, BitVec.twoPow_eq]
  rw [testBitFor, mask, BitVec.and_twoPow]
  cases isSet : (words (p / 32)).getLsbD (p % 32) with
  | false =>
      simp
  | true =>
      have nonzero : BitVec.twoPow 32 (p % 32) ≠ 0 := by
        intro isZero
        have bit := congrArg (fun word => BitVec.getLsbD word (p % 32)) isZero
        simp [BitVec.getLsbD_twoPow] at bit
        omega
      simpa using nonzero

theorem getLsbD_bitMask (p bit : Nat) :
    (bitMask p).getLsbD bit = decide (bit = p % 32) := by
  have small : p % 32 < 32 := Nat.mod_lt p (by decide)
  rw [bitMask, ← BitVec.twoPow_eq, BitVec.getLsbD_twoPow]
  by_cases same : bit = p % 32
  · simp [same, small]
  · simp [same, Ne.symm same]

theorem testBitFor_setBitFor (words : Bitvector) (p q : Nat) :
    testBitFor (setBitFor words p) q = (decide (q = p) || testBitFor words q) := by
  rw [testBitFor_eq, testBitFor_eq, setBitFor]
  by_cases sameWord : q / 32 = p / 32
  · have sameBit : q % 32 = p % 32 ↔ q = p := by
      omega
    rw [sameWord, Function.update_self, BitVec.getLsbD_or, getLsbD_bitMask, Bool.or_comm]
    simp [sameBit]
  · have different : q ≠ p := by
      intro same
      exact sameWord (by rw [same])
    rw [Function.update_of_ne sameWord]
    simp [different]

theorem testBitFor_clearBitFor (words : Bitvector) (p q : Nat) :
    testBitFor (clearBitFor words p) q = (!decide (q = p) && testBitFor words q) := by
  have small : q % 32 < 32 := Nat.mod_lt q (by decide)
  rw [testBitFor_eq, testBitFor_eq, clearBitFor]
  by_cases sameWord : q / 32 = p / 32
  · have sameBit : q % 32 = p % 32 ↔ q = p := by
      omega
    rw [sameWord, Function.update_self, BitVec.getLsbD_and, BitVec.getLsbD_not, getLsbD_bitMask,
      Bool.and_comm]
    simp [sameBit, small]
  · have different : q ≠ p := by
      intro same
      exact sameWord (by rw [same])
    rw [Function.update_of_ne sameWord]
    simp [different]

theorem testBitFor_memset
    (words : Bitvector) (first count p : Nat) (value : BitVec 32) :
    testBitFor (memset words first count value) p =
      if 32 * first ≤ p ∧ p < 32 * (first + count) then value.getLsbD (p % 32)
      else testBitFor words p := by
  have sameRange : first ≤ p / 32 ∧ p / 32 < first + count ↔
      32 * first ≤ p ∧ p < 32 * (first + count) := by
    omega
  rw [testBitFor_eq, testBitFor_eq, memset]
  simp only [sameRange]
  split <;> rfl

/-! ## Setting a range -/

/-- `set_bit_range`. -/
def setBitRange (words : Bitvector) (start : Nat) : Nat → Bitvector
  | 0 => words
  | len + 1 => setBitRange (setBitFor words start) (start + 1) len

/-- `oop_write_barrier_range`, of a heap that starts at an address. -/
def oopWriteBarrierRange (heapStart : Nat) (words : Bitvector) (start len : Nat) : Bitvector :=
  if len < 32 then
    setBitRange words start len
  else
    let startOffset := start - heapStart
    let head := 32 - startOffset % 32
    let main := (len - head) / 32 * 32
    let tail := len - (head + main)
    let words := if 0 < head then setBitRange words start head else words
    let words :=
      if 0 < main then memset words ((start + head) / 32) (main / 32) (BitVec.allOnes 32)
      else words
    if 0 < tail then setBitRange words (start + head + main) tail else words

theorem testBitFor_setBitRange (words : Bitvector) (start len p : Nat) :
    testBitFor (setBitRange words start len) p =
      (decide (start ≤ p ∧ p < start + len) || testBitFor words p) := by
  induction len generalizing words start with
  | zero =>
      have empty : ¬ (start ≤ p ∧ p < start + 0) := by
        omega
      rw [setBitRange, decide_eq_false empty, Bool.false_or]
  | succ len inductionHypothesis =>
      have split : start ≤ p ∧ p < start + (len + 1) ↔
          (start + 1 ≤ p ∧ p < start + 1 + len) ∨ p = start := by
        omega
      rw [setBitRange, inductionHypothesis, testBitFor_setBitFor, ← Bool.or_assoc,
        ← Bool.decide_or]
      simp only [split]

theorem setBitRange_guarded (words : Bitvector) (start len : Nat) :
    (if 0 < len then setBitRange words start len else words) = setBitRange words start len := by
  cases len with
  | zero =>
      rfl
  | succ len =>
      exact if_pos (Nat.succ_pos len)

theorem memset_guarded (words : Bitvector) (first main : Nat) (value : BitVec 32) :
    (if 0 < main then memset words first (main / 32) value else words) =
      memset words first (main / 32) value := by
  by_cases nonempty : 0 < main
  · exact if_pos nonempty
  · rw [if_neg nonempty]
    funext word
    rw [memset, if_neg (by omega)]

/-- The write barrier of a range sets the bits of the range, and no other. -/
theorem testBitFor_oopWriteBarrierRange
    {heapStart start : Nat} (words : Bitvector) (len p : Nat)
    (aligned : heapStart % 32 = 0)
    (inHeap : heapStart ≤ start) :
    testBitFor (oopWriteBarrierRange heapStart words start len) p =
      (decide (start ≤ p ∧ p < start + len) || testBitFor words p) := by
  rw [oopWriteBarrierRange]
  by_cases short : len < 32
  · rw [if_pos short, testBitFor_setBitRange]
  · rw [if_neg short]
    simp only [setBitRange_guarded, memset_guarded, testBitFor_setBitRange, testBitFor_memset]
    have small : p % 32 < 32 := Nat.mod_lt p (by decide)
    rw [BitVec.getLsbD_allOnes, decide_eq_true small]
    -- the three parts follow one another, and the middle one starts at a word of the bitvector
    have headLe : 32 - (start - heapStart) % 32 ≤ len := by
      omega
    have mainAligned : (start + (32 - (start - heapStart) % 32)) % 32 = 0 := by
      omega
    generalize 32 - (start - heapStart) % 32 = head at headLe mainAligned ⊢
    by_cases inRange : start ≤ p ∧ p < start + len
    · rw [decide_eq_true inRange, Bool.true_or]
      by_cases inTail : start + head + (len - head) / 32 * 32 ≤ p
      · rw [decide_eq_true (by omega), Bool.true_or]
      · by_cases inMain : start + head ≤ p
        · rw [if_pos (by omega), Bool.or_true]
        · rw [decide_eq_true (p := start ≤ p ∧ p < start + head) (by omega), Bool.true_or,
            ite_self, Bool.or_true]
    · rw [decide_eq_false inRange, Bool.false_or, decide_eq_false (by omega), Bool.false_or,
        if_neg (by omega), decide_eq_false (by omega), Bool.false_or]

/-! ## Clearing a range -/

/-- `align_down`. -/
def alignDown (p : Nat) : Nat :=
  p / 32 * 32

/-- `align_up`. -/
def alignUp (p : Nat) : Nat :=
  (p + 31) / 32 * 32

theorem alignDown_spec (p : Nat) :
    ∃ word, alignDown p = 32 * word ∧ 32 * word ≤ p ∧ p < 32 * word + 32 :=
  ⟨p / 32, Nat.mul_comm _ _, by omega⟩

theorem alignUp_spec (p : Nat) :
    ∃ word, alignUp p = 32 * word ∧ p ≤ 32 * word ∧ 32 * word < p + 32 :=
  ⟨(p + 31) / 32, Nat.mul_comm _ _, by omega⟩

/-- The loop of `clear_bit_range` that goes up from an address. -/
def clearUp (words : Bitvector) (start : Nat) : Nat → Bitvector
  | 0 => words
  | count + 1 => clearUp (clearBitFor words start) (start + 1) count

/-- The loop of `clear_bit_range` that goes down to an address. -/
def clearDown (words : Bitvector) (alignedEnd : Nat) : Nat → Bitvector
  | 0 => words
  | count + 1 => clearDown (clearBitFor words (alignedEnd + count)) alignedEnd count

/-- `clear_bit_range`. -/
def clearBitRange (words : Bitvector) (start finish : Nat) : Bitvector :=
  let alignedStart := alignUp start
  let alignedEnd := alignDown finish
  if alignedEnd ≤ alignedStart then
    clearUp words start (finish - start)
  else
    let words := clearUp words start (alignedStart - start)
    let words := clearDown words alignedEnd (finish - alignedEnd)
    memset words (alignedStart / 32) (alignedEnd / 32 - alignedStart / 32) 0

theorem testBitFor_clearUp (words : Bitvector) (start count p : Nat) :
    testBitFor (clearUp words start count) p =
      (!decide (start ≤ p ∧ p < start + count) && testBitFor words p) := by
  induction count generalizing words start with
  | zero =>
      have empty : ¬ (start ≤ p ∧ p < start + 0) := by
        omega
      rw [clearUp, decide_eq_false empty, Bool.not_false, Bool.true_and]
  | succ count inductionHypothesis =>
      have split : start ≤ p ∧ p < start + (count + 1) ↔
          (start + 1 ≤ p ∧ p < start + 1 + count) ∨ p = start := by
        omega
      rw [clearUp, inductionHypothesis, testBitFor_clearBitFor, ← Bool.and_assoc, ← Bool.not_or,
        ← Bool.decide_or]
      simp only [split]

theorem testBitFor_clearDown (words : Bitvector) (alignedEnd count p : Nat) :
    testBitFor (clearDown words alignedEnd count) p =
      (!decide (alignedEnd ≤ p ∧ p < alignedEnd + count) && testBitFor words p) := by
  induction count generalizing words with
  | zero =>
      have empty : ¬ (alignedEnd ≤ p ∧ p < alignedEnd + 0) := by
        omega
      rw [clearDown, decide_eq_false empty, Bool.not_false, Bool.true_and]
  | succ count inductionHypothesis =>
      have split : alignedEnd ≤ p ∧ p < alignedEnd + (count + 1) ↔
          (alignedEnd ≤ p ∧ p < alignedEnd + count) ∨ p = alignedEnd + count := by
        omega
      rw [clearDown, inductionHypothesis, testBitFor_clearBitFor, ← Bool.and_assoc, ← Bool.not_or,
        ← Bool.decide_or]
      simp only [split]

/-- Clearing a range clears the bits of the range, and no other. -/
theorem testBitFor_clearBitRange (words : Bitvector) (start finish p : Nat) :
    testBitFor (clearBitRange words start finish) p =
      (!decide (start ≤ p ∧ p < finish) && testBitFor words p) := by
  simp only [clearBitRange]
  by_cases small : alignDown finish ≤ alignUp start
  · have sameRange : start ≤ p ∧ p < start + (finish - start) ↔ start ≤ p ∧ p < finish := by
      omega
    rw [if_pos small, testBitFor_clearUp]
    simp only [sameRange]
  · rw [if_neg small, testBitFor_memset, testBitFor_clearDown, testBitFor_clearUp]
    obtain ⟨firstWord, startEq, startLe⟩ := alignUp_spec start
    obtain ⟨endWord, finishEq, leFinish⟩ := alignDown_spec finish
    rw [startEq, finishEq] at small ⊢
    by_cases inRange : start ≤ p ∧ p < finish
    · rw [decide_eq_true inRange, Bool.not_true, Bool.false_and]
      by_cases inMain : 32 * firstWord ≤ p ∧ p < 32 * endWord
      · rw [if_pos (by omega)]
        simp
      · rw [if_neg (by omega)]
        by_cases inHead : p < 32 * firstWord
        · rw [decide_eq_true (p := start ≤ p ∧ _) (by omega), Bool.not_true, Bool.false_and,
            Bool.and_false]
        · rw [decide_eq_true (by omega), Bool.not_true, Bool.false_and]
    · rw [decide_eq_false inRange, if_neg (by omega), decide_eq_false (by omega),
        decide_eq_false (by omega)]
      simp

/-! ## Visiting a range -/

/-- `right_n_bits`. -/
def rightNBits (count : Nat) : BitVec 32 :=
  (if 32 ≤ count then 0 else 1#32 <<< count) - 1

/-- The loop that skips the words of the bitvector without a bit, up to the last one. -/
def skipWords (words : Bitvector) (last : Nat) : Nat → Nat → BitVec 32 → Nat × BitVec 32
  | 0, pointer, bitword => (pointer, bitword)
  | rounds + 1, pointer, bitword =>
      if pointer ≤ last ∧ bitword = 0 then
        skipWords words last rounds (pointer + 1) (words (pointer + 1))
      else
        (pointer, bitword)

/-- The outer loop of `WRITE_BARRIER_OOPS_LOOP`, for so many rounds: the addresses it visits.
The word that has been scanned is zero when the next round starts. -/
def visitWords (words : Bitvector) (finish last : Nat) :
    Nat → Nat → BitVec 32 → Option (List Nat)
  | 0, _, _ => none
  | rounds + 1, pointer, bitword =>
      let (pointer, bitword) := skipWords words last (last + 1 - pointer) pointer bitword
      let p := 32 * pointer
      if pointer < last then
        (visitWords words finish last rounds pointer 0).map fun visited =>
          scanWord 32 bitword p ++ visited
      else if pointer = last then
        let keep := finish - p
        (visitWords words finish last rounds pointer 0).map fun visited =>
          scanWord 32 (bitword &&& rightNBits keep) p ++ visited
      else
        some []

/-- `WRITE_BARRIER_OOPS_LOOP`. -/
def writeBarrierOops (words : Bitvector) (start finish rounds : Nat) : Option (List Nat) :=
  let p := alignDown start
  let pointer := p / 32
  let last := alignDown finish / 32
  visitWords words finish last rounds pointer
    (words pointer &&& ~~~(1#32 <<< (start - p) - 1))

/-! ## What is visited -/

/-- The bits of a word of the bitvector that are set, up to the end of the range. -/
def wordMarks (finish pointer : Nat) (bitword : BitVec 32) : List Nat :=
  (List.range' (32 * pointer) (min 32 (finish - 32 * pointer))).filter fun p =>
    bitword.getLsbD (p - 32 * pointer)

/-- The bits that are set from a word of the bitvector on, up to the end of the range. -/
def marksFrom (words : Bitvector) (finish pointer : Nat) : List Nat :=
  (List.range' (32 * pointer) (finish - 32 * pointer)).filter (testBitFor words)

theorem wordMarks_zero (finish pointer : Nat) : wordMarks finish pointer 0 = [] := by
  simp [wordMarks]

theorem getLsbD_rightNBits
    {count : Nat} (small : count < 32) (bit : Nat) :
    (rightNBits count).getLsbD bit = decide (bit < count) := by
  rw [rightNBits, if_neg (by omega)]
  exact getLsbD_lowBits small bit

theorem marksFrom_eq (words : Bitvector) (finish pointer : Nat) :
    marksFrom words finish pointer =
      wordMarks finish pointer (words pointer) ++ marksFrom words finish (pointer + 1) := by
  have ofWord : wordMarks finish pointer (words pointer) =
      (List.range' (32 * pointer) (min 32 (finish - 32 * pointer))).filter (testBitFor words) := by
    apply List.filter_congr
    intro p member
    have inside := List.mem_range'_1.mp member
    have sameWord : p / 32 = pointer := by
      omega
    have sameBit : p % 32 = p - 32 * pointer := by
      omega
    rw [testBitFor_eq, sameWord, sameBit]
  rw [ofWord, marksFrom, marksFrom, ← List.filter_append]
  congr 1
  by_cases whole : 32 ≤ finish - 32 * pointer
  · rw [Nat.min_eq_left whole, Nat.mul_add, Nat.mul_one, List.range'_append_1]
    congr 1
    omega
  · have none : finish - 32 * (pointer + 1) = 0 := by
      omega
    rw [Nat.min_eq_right (by omega), none]
    simp

/-- The words that are skipped have no bits; the word that is reached has one, or is behind the
last one. -/
theorem skipWords_spec
    (words : Bitvector) (finish : Nat) {last pointer : Nat} (bitword : BitVec 32)
    (within : pointer ≤ last + 1) :
    ∃ pointer' bitword',
      skipWords words last (last + 1 - pointer) pointer bitword = (pointer', bitword') ∧
      wordMarks finish pointer' bitword' ++ marksFrom words finish (pointer' + 1) =
        wordMarks finish pointer bitword ++ marksFrom words finish (pointer + 1) ∧
      pointer ≤ pointer' ∧ pointer' ≤ last + 1 ∧ (pointer' ≤ last → bitword' ≠ 0) ∧
      (bitword = 0 → pointer ≤ last → pointer < pointer') := by
  generalize count : last + 1 - pointer = rounds
  induction rounds generalizing pointer bitword with
  | zero =>
      exact ⟨pointer, bitword, rfl, rfl, le_rfl, within, by omega, by omega⟩
  | succ rounds inductionHypothesis =>
      rw [skipWords]
      by_cases skips : pointer ≤ last ∧ bitword = 0
      · rw [if_pos skips]
        obtain ⟨pointer', bitword', reached, marks, after, before, nonzero, _⟩ :=
          @inductionHypothesis (pointer + 1) (words (pointer + 1)) (by omega) (by omega)
        refine ⟨pointer', bitword', reached, ?_, by omega, before, nonzero, by omega⟩
        rw [marks, skips.2, wordMarks_zero, List.nil_append, ← marksFrom_eq]
      · rw [if_neg skips]
        exact ⟨pointer, bitword, rfl, rfl, le_rfl, within,
          fun isWithin isZero => skips ⟨isWithin, isZero⟩,
          fun isZero isWithin => absurd ⟨isWithin, isZero⟩ skips⟩

theorem scanWord_whole
    {finish pointer : Nat} (bitword : BitVec 32)
    (whole : 32 * pointer + 32 ≤ finish) :
    scanWord 32 bitword (32 * pointer) = wordMarks finish pointer bitword := by
  rw [wordMarks, Nat.min_eq_left (by omega)]
  exact scanWord_eq 32 bitword _ le_rfl fun bit above => BitVec.getLsbD_of_ge bitword bit above

theorem scanWord_cut
    {finish pointer : Nat} (bitword : BitVec 32)
    (isLast : finish < 32 * pointer + 32) :
    scanWord 32 (bitword &&& rightNBits (finish - 32 * pointer)) (32 * pointer) =
      wordMarks finish pointer bitword := by
  have small : finish - 32 * pointer < 32 := by
    omega
  rw [wordMarks, Nat.min_eq_right small.le]
  rw [@scanWord_eq 32 (finish - 32 * pointer) _ _ small.le]
  · apply List.filter_congr
    intro p member
    have inside := List.mem_range'_1.mp member
    rw [BitVec.getLsbD_and, getLsbD_rightNBits small, decide_eq_true (by omega), Bool.and_true]
  · intro bit above
    rw [BitVec.getLsbD_and, getLsbD_rightNBits small, decide_eq_false (by omega), Bool.and_false]

/-- The loop ends, and has visited the bits of the word it started with and of those after it. -/
theorem visitWords_eq
    (words : Bitvector) (finish : Nat) {rounds pointer : Nat} (bitword : BitVec 32)
    (within : pointer ≤ finish / 32 + 1)
    (enough : 2 * (finish / 32 + 1 - pointer) + (if bitword = 0 then 0 else 1) < rounds) :
    visitWords words finish (finish / 32) rounds pointer bitword =
      some (wordMarks finish pointer bitword ++ marksFrom words finish (pointer + 1)) := by
  induction rounds generalizing pointer bitword with
  | zero =>
      omega
  | succ rounds inductionHypothesis =>
      obtain ⟨pointer', bitword', reached, marks, after, before, nonzero, moved⟩ :=
        skipWords_spec words finish bitword within
      rw [visitWords, reached, ← marks]
      dsimp only
      by_cases isWithin : pointer' ≤ finish / 32
      · have fewer : 2 * (finish / 32 + 1 - pointer') < rounds := by
          by_cases isZero : bitword = 0
          · have later := moved isZero (by omega)
            omega
          · rw [if_neg isZero] at enough
            omega
        have rest := inductionHypothesis (0 : BitVec 32) before (by simpa using fewer)
        rw [rest, wordMarks_zero, List.nil_append]
        by_cases notLast : pointer' < finish / 32
        · rw [if_pos notLast, @scanWord_whole finish _ bitword' (by omega)]
          rfl
        · rw [if_neg notLast, if_pos (by omega),
            @scanWord_cut finish _ bitword' (by omega)]
          rfl
      · rw [if_neg (by omega), if_neg (by omega)]
        have none : finish - 32 * pointer' = 0 := by
          omega
        have none' : finish - 32 * (pointer' + 1) = 0 := by
          omega
        simp [wordMarks, marksFrom, none, none']

/-- The bits of the first word from the start of the range on, and those of the words after it,
are the bits of the range. -/
theorem wordMarks_append_marksFrom
    (words : Bitvector) {start finish : Nat}
    (isRange : start ≤ finish) :
    wordMarks finish (start / 32) (words (start / 32) &&& ~~~(lowBits (start % 32))) ++
        marksFrom words finish (start / 32 + 1) =
      (List.range' start (finish - start)).filter (testBitFor words) := by
  have small : start % 32 < 32 := Nat.mod_lt start (by decide)
  have startEq := Nat.div_add_mod start 32
  generalize start / 32 = pointer at startEq ⊢
  generalize start % 32 = offset at small startEq ⊢
  subst startEq
  have first : wordMarks finish pointer (words pointer &&& ~~~(lowBits offset)) =
      (List.range' (32 * pointer + offset) (min 32 (finish - 32 * pointer) - offset)).filter
        (testBitFor words) := by
    have split : List.range' (32 * pointer) (min 32 (finish - 32 * pointer)) =
        List.range' (32 * pointer) offset ++
          List.range' (32 * pointer + offset) (min 32 (finish - 32 * pointer) - offset) := by
      rw [List.range'_append_1]
      congr 1
      omega
    rw [wordMarks, split, List.filter_append]
    have cut : ((List.range' (32 * pointer) offset).filter fun p =>
        (words pointer &&& ~~~(lowBits offset)).getLsbD (p - 32 * pointer)) = [] := by
      apply List.filter_eq_nil_iff.mpr
      intro p member
      have inside := List.mem_range'_1.mp member
      rw [BitVec.getLsbD_and, BitVec.getLsbD_not, getLsbD_lowBits small,
        decide_eq_true (p := _ < offset) (by omega)]
      simp
    rw [cut, List.nil_append]
    apply List.filter_congr
    intro p member
    have inside := List.mem_range'_1.mp member
    have sameWord : p / 32 = pointer := by
      omega
    have sameBit : p % 32 = p - 32 * pointer := by
      omega
    rw [testBitFor_eq, sameWord, sameBit, BitVec.getLsbD_and, BitVec.getLsbD_not,
      getLsbD_lowBits small, decide_eq_false (p := _ < offset) (by omega),
      decide_eq_true (by omega)]
    simp
  rw [first, marksFrom, ← List.filter_append]
  congr 1
  by_cases whole : 32 ≤ finish - 32 * pointer
  · have next : 32 * (pointer + 1) = 32 * pointer + offset + (32 - offset) := by
      omega
    rw [Nat.min_eq_left whole, next, List.range'_append_1]
    congr 1
    omega
  · have none : finish - 32 * (pointer + 1) = 0 := by
      omega
    rw [none, Nat.min_eq_right (by omega), Nat.sub_sub]
    simp

/-! ## Ranges -/

/-- A range of the heap, whose bitvector starts with a whole word. -/
structure HeapRange where
  heapStart : Nat
  start : Nat
  finish : Nat
  aligned : heapStart % 32 = 0
  inHeap : heapStart ≤ start
  ordered : start ≤ finish

/-- Of every range of the heap the write barrier sets the bits, `clear_bit_range` clears them, and
`WRITE_BARRIER_OOPS_LOOP` ends after it has visited, in order and once each, those that are set;
and no other bit is set, cleared or visited. -/
theorem ranges_exact (words : Bitvector) (range : HeapRange) :
    (∀ p, testBitFor
          (oopWriteBarrierRange range.heapStart words range.start (range.finish - range.start)) p =
        (decide (range.start ≤ p ∧ p < range.finish) || testBitFor words p)) ∧
      (∀ p, testBitFor (clearBitRange words range.start range.finish) p =
        (!decide (range.start ≤ p ∧ p < range.finish) && testBitFor words p)) ∧
      ∃ enough, ∀ rounds ≥ enough, writeBarrierOops words range.start range.finish rounds =
        some ((List.range' range.start (range.finish - range.start)).filter
          (testBitFor words)) := by
  have ordered := range.ordered
  refine ⟨?_, ?_, ?_⟩
  · intro p
    rw [testBitFor_oopWriteBarrierRange words _ p range.aligned range.inHeap,
      Nat.add_sub_cancel' ordered]
  · exact testBitFor_clearBitRange words range.start range.finish
  · refine ⟨2 * (range.finish / 32 + 1) + 2, fun rounds enough => ?_⟩
    have pointer : alignDown range.start / 32 = range.start / 32 := by
      rw [alignDown]
      omega
    have last : alignDown range.finish / 32 = range.finish / 32 := by
      rw [alignDown]
      omega
    have offset : range.start - alignDown range.start = range.start % 32 := by
      rw [alignDown]
      omega
    simp only [writeBarrierOops, pointer, last, offset]
    rw [visitWords_eq words range.finish _ (by omega) (by split <;> omega)]
    exact congrArg some (wordMarks_append_marksFrom words ordered)

end PicoJvm.BitRanges
