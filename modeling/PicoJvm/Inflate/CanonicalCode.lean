import Mathlib.Algebra.BigOperators.Group.List.Basic
import Mathlib.Algebra.Order.BigOperators.Group.List
import Mathlib.Tactic.Ring
import PicoJvm.Lib.BitReversal

/-!
# Canonical codes

The codes that RFC 1951 gives to a vector of code lengths. Written at the upper end of 15 bits
they are ranges behind each other, so that a stream begins with one of them at most.
-/

namespace PicoJvm.Inflate

open PicoJvm.Lib.BitReversal

/-! ## The codes -/

/-- The number of codes of a length; a symbol of length zero has none. -/
def blCount (lengths : List Nat) (bits : Nat) : Nat :=
  if bits = 0 then 0 else lengths.count bits

/-- The first code of a length. -/
def nextCode (lengths : List Nat) : Nat → Nat
  | 0 => 0
  | bits + 1 => (nextCode lengths bits + blCount lengths bits) * 2

/-- The code of a symbol: the codes of a length are given in the order of the symbols. -/
def canonicalCode (lengths : List Nat) (symbol : Nat) : Nat :=
  nextCode lengths (lengths.getD symbol 0) +
    (lengths.take symbol).count (lengths.getD symbol 0)

/-- The stream continues with a code. Its first bit is the lowest one of what was read, and the
highest one of the code. -/
def Continues (inData code length : Nat) : Prop :=
  ∀ index < length, inData.testBit index = code.testBit (length - 1 - index)

/-- The words of 15 bits that begin with a code of at most so many bits. -/
def space (lengths : List Nat) (bits : Nat) : Nat :=
  (lengths.map fun length => if 0 < length ∧ length ≤ bits then 2 ^ (15 - length) else 0).sum

/-- Code lengths that leave each code words of its own, of at most as many symbols as an entry
can name. -/
structure CodeLengths where
  lengths : List Nat
  length_le : ∀ length ∈ lengths, length ≤ 15
  notOversubscribed : space lengths 15 ≤ 2 ^ 15
  symbols_le : lengths.length ≤ 2048

/-! ## Ranges of words -/

theorem space_cons (length : Nat) (lengths : List Nat) (bits : Nat) :
    space (length :: lengths) bits =
      (if 0 < length ∧ length ≤ bits then 2 ^ (15 - length) else 0) + space lengths bits := by
  simp [space]

@[simp] theorem space_zero (lengths : List Nat) : space lengths 0 = 0 := by
  induction lengths with
  | nil => rfl
  | cons length lengths induction =>
      rw [space_cons, induction, if_neg (by omega)]

theorem space_succ (lengths : List Nat) (bits : Nat) :
    space lengths (bits + 1) = space lengths bits + lengths.count (bits + 1) * 2 ^ (15 - (bits + 1)) := by
  induction lengths with
  | nil => simp [space]
  | cons length lengths induction =>
      rw [space_cons, space_cons, induction, List.count_cons]
      by_cases here : length = bits + 1
      · subst here
        simp
        ring
      · have notHere : (length == bits + 1) = false := beq_eq_false_iff_ne.mpr here
        have same : (0 < length ∧ length ≤ bits + 1) ↔ (0 < length ∧ length ≤ bits) := by omega
        simp only [notHere, same]
        simp
        ring

theorem space_mono
    (lengths : List Nat)
    {bits bits' : Nat}
    (atMost : bits ≤ bits') :
    space lengths bits ≤ space lengths bits' := by
  induction atMost with
  | refl => exact Nat.le_refl _
  | step _ induction =>
      rw [space_succ]
      exact Nat.le_trans induction (Nat.le_add_right _ _)

/-- The first code of a length begins behind the shorter ones. -/
theorem nextCode_shifted
    (lengths : List Nat)
    {bits : Nat}
    (atMost : bits + 1 ≤ 15) :
    nextCode lengths (bits + 1) * 2 ^ (15 - (bits + 1)) = space lengths bits := by
  induction bits with
  | zero => simp [nextCode, blCount]
  | succ bits induction =>
      have shorter := induction (by omega)
      have power : 2 ^ (15 - (bits + 1)) = 2 * 2 ^ (15 - (bits + 1 + 1)) := by
        rw [← Nat.pow_succ']
        congr 1
        omega
      rw [nextCode, space_succ, ← shorter, blCount, if_neg (Nat.succ_ne_zero bits), power]
      ring

section Symbols

variable {lengths : List Nat} {symbol : Nat}

/-- A symbol that has a code. -/
structure IsCoded (lengths : List Nat) (symbol : Nat) : Prop where
  inside : symbol < lengths.length
  positive : 0 < lengths.getD symbol 0

/-- The first word that begins with the code of a symbol. -/
def firstWord (lengths : List Nat) (symbol : Nat) : Nat :=
  canonicalCode lengths symbol * 2 ^ (15 - lengths.getD symbol 0)

theorem firstWord_eq
    (coded : IsCoded lengths symbol)
    (atMost : lengths.getD symbol 0 ≤ 15) :
    firstWord lengths symbol = space lengths (lengths.getD symbol 0 - 1) +
      (lengths.take symbol).count (lengths.getD symbol 0) * 2 ^ (15 - lengths.getD symbol 0) := by
  obtain ⟨bits, length⟩ : ∃ bits, lengths.getD symbol 0 = bits + 1 :=
    ⟨lengths.getD symbol 0 - 1, by have := coded.positive; omega⟩
  unfold firstWord canonicalCode
  rw [length] at atMost ⊢
  rw [Nat.add_mul, nextCode_shifted lengths atMost, Nat.add_sub_cancel]

theorem count_take_lt
    {symbol' : Nat}
    (inside : symbol < lengths.length)
    (before : symbol < symbol') :
    (lengths.take symbol).count (lengths.getD symbol 0) + 1 ≤
      (lengths.take symbol').count (lengths.getD symbol 0) := by
  have taken : lengths.take (symbol + 1) = lengths.take symbol ++ [lengths.getD symbol 0] := by
    rw [List.take_succ_eq_append_getElem inside, List.getD_eq_getElem?_getD,
      List.getElem?_eq_getElem inside]
    rfl
  have counted : (lengths.take (symbol + 1)).count (lengths.getD symbol 0) =
      (lengths.take symbol).count (lengths.getD symbol 0) + 1 := by
    rw [taken, List.count_append, List.count_singleton_self]
  rw [← counted]
  exact (List.take_sublist_take_left before).count_le _

/-- The words of a symbol lie in the space of its length. -/
theorem firstWord_le
    (coded : IsCoded lengths symbol)
    (atMost : lengths.getD symbol 0 ≤ 15) :
    space lengths (lengths.getD symbol 0 - 1) ≤ firstWord lengths symbol ∧
      firstWord lengths symbol + 2 ^ (15 - lengths.getD symbol 0) ≤
        space lengths (lengths.getD symbol 0) := by
  have counted := count_take_lt coded.inside coded.inside
  rw [List.take_length] at counted
  have last := space_succ lengths (lengths.getD symbol 0 - 1)
  have length : lengths.getD symbol 0 - 1 + 1 = lengths.getD symbol 0 := by
    have := coded.positive
    omega
  rw [length] at last
  rw [firstWord_eq coded atMost, last]
  refine ⟨Nat.le_add_right _ _, ?_⟩
  rw [Nat.add_assoc, ← Nat.succ_mul]
  exact Nat.add_le_add_left (Nat.mul_le_mul_right _ counted) _

/-- Of two symbols one has all its words below those of the other. -/
theorem firstWord_disjoint
    {symbol' : Nat}
    (coded : IsCoded lengths symbol)
    (coded' : IsCoded lengths symbol')
    (atMost : lengths.getD symbol 0 ≤ 15)
    (atMost' : lengths.getD symbol' 0 ≤ 15)
    (before : lengths.getD symbol 0 < lengths.getD symbol' 0 ∨
      lengths.getD symbol 0 = lengths.getD symbol' 0 ∧ symbol < symbol') :
    firstWord lengths symbol + 2 ^ (15 - lengths.getD symbol 0) ≤ firstWord lengths symbol' := by
  rcases before with shorter | ⟨same, earlier⟩
  · have upper := (firstWord_le coded atMost).2
    have lower := (firstWord_le coded' atMost').1
    have mono := space_mono lengths
      (show lengths.getD symbol 0 ≤ lengths.getD symbol' 0 - 1 by omega)
    omega
  · have counted := count_take_lt coded.inside earlier
    rw [firstWord_eq coded atMost, firstWord_eq coded' atMost', ← same, Nat.add_assoc,
      ← Nat.succ_mul]
    exact Nat.add_le_add_left (Nat.mul_le_mul_right _ counted) _

end Symbols

/-! ## What the stream continues with -/

section Words

variable (alphabet : CodeLengths)

def CodeLengths.length (symbol : Nat) : Nat :=
  alphabet.lengths.getD symbol 0

def CodeLengths.IsCoded (symbol : Nat) : Prop :=
  Inflate.IsCoded alphabet.lengths symbol

/-- The code of a symbol, its first bit lowest. -/
def CodeLengths.reversed (symbol : Nat) : Nat :=
  reverse (alphabet.length symbol) (canonicalCode alphabet.lengths symbol)

/-- A word begins with the code of a symbol, from its lowest bit on. -/
def CodeLengths.Begins (word symbol : Nat) : Prop :=
  alphabet.IsCoded symbol ∧ word % 2 ^ alphabet.length symbol = alphabet.reversed symbol

variable {alphabet} {symbol symbol' word : Nat}

theorem length_le (symbol : Nat) : alphabet.length symbol ≤ 15 := by
  unfold CodeLengths.length
  rw [List.getD_eq_getElem?_getD]
  cases found : alphabet.lengths[symbol]? with
  | none => exact Nat.zero_le _
  | some length => exact alphabet.length_le length (List.mem_of_getElem? found)

theorem power_split (symbol : Nat) :
    2 ^ alphabet.length symbol * 2 ^ (15 - alphabet.length symbol) = 2 ^ 15 := by
  rw [← Nat.pow_add, Nat.add_sub_cancel' (length_le symbol)]

theorem firstWord_lt
    (coded : alphabet.IsCoded symbol) :
    firstWord alphabet.lengths symbol + 2 ^ (15 - alphabet.length symbol) ≤ 2 ^ 15 :=
  calc
    _ ≤ space alphabet.lengths (alphabet.length symbol) := (firstWord_le coded (length_le symbol)).2
    _ ≤ space alphabet.lengths 15 := space_mono _ (length_le symbol)
    _ ≤ 2 ^ 15 := alphabet.notOversubscribed

theorem canonicalCode_lt
    (coded : alphabet.IsCoded symbol) :
    canonicalCode alphabet.lengths symbol < 2 ^ alphabet.length symbol := by
  have fits := firstWord_lt coded
  have power : 2 ^ alphabet.length symbol * 2 ^ (15 - alphabet.length symbol) = 2 ^ 15 :=
    power_split symbol
  have shifted : firstWord alphabet.lengths symbol =
      canonicalCode alphabet.lengths symbol * 2 ^ (15 - alphabet.length symbol) := rfl
  by_contra atLeast
  have := Nat.mul_le_mul_right (2 ^ (15 - alphabet.length symbol)) (Nat.not_lt.mp atLeast)
  have positive := Nat.two_pow_pos (15 - alphabet.length symbol)
  omega

theorem reversed_lt (symbol : Nat) : alphabet.reversed symbol < 2 ^ alphabet.length symbol :=
  reverse_lt _ _

/-- The words that begin with a code, with their first bit highest, are its range. -/
theorem begins_iff
    (coded : alphabet.IsCoded symbol) :
    alphabet.Begins word symbol ↔
      firstWord alphabet.lengths symbol ≤ reverse 15 word ∧
        reverse 15 word < firstWord alphabet.lengths symbol + 2 ^ (15 - alphabet.length symbol) := by
  have split := reverse_div (alphabet.length symbol) (15 - alphabet.length symbol) word
  rw [Nat.add_sub_cancel' (length_le symbol)] at split
  have positive := Nat.two_pow_pos (15 - alphabet.length symbol)
  have shifted : firstWord alphabet.lengths symbol =
      canonicalCode alphabet.lengths symbol * 2 ^ (15 - alphabet.length symbol) := rfl
  have inside := Nat.div_eq_iff (x := reverse 15 word)
    (y := canonicalCode alphabet.lengths symbol) positive
  rw [split] at inside
  rw [CodeLengths.Begins, and_iff_right coded, CodeLengths.reversed,
    mod_eq_reverse_iff (canonicalCode_lt coded), inside, shifted]
  omega

/-- No word begins with two codes. -/
theorem begins_unique
    (begins : alphabet.Begins word symbol)
    (begins' : alphabet.Begins word symbol') :
    symbol = symbol' := by
  have range := (begins_iff begins.1).mp begins
  have range' := (begins_iff begins'.1).mp begins'
  unfold CodeLengths.length at range range'
  by_contra different
  rcases Nat.lt_trichotomy (alphabet.lengths.getD symbol 0) (alphabet.lengths.getD symbol' 0) with
    shorter | same | longer
  · have below := firstWord_disjoint begins.1 begins'.1 (length_le symbol) (length_le symbol')
      (.inl shorter)
    omega
  · rcases Nat.lt_or_gt_of_ne different with earlier | later
    · have below := firstWord_disjoint begins.1 begins'.1 (length_le symbol) (length_le symbol')
        (.inr ⟨same, earlier⟩)
      omega
    · have below := firstWord_disjoint begins'.1 begins.1 (length_le symbol') (length_le symbol)
        (.inr ⟨same.symm, later⟩)
      omega
  · have below := firstWord_disjoint begins'.1 begins.1 (length_le symbol') (length_le symbol)
      (.inl longer)
    omega

/-- The stream continues with a code when what was read of it begins with the code. -/
theorem continues_iff
    (coded : alphabet.IsCoded symbol) :
    Continues word (canonicalCode alphabet.lengths symbol) (alphabet.length symbol) ↔
      alphabet.Begins word symbol := by
  rw [CodeLengths.Begins, and_iff_right coded, CodeLengths.reversed]
  constructor
  · intro continues
    refine Nat.eq_of_testBit_eq fun index => ?_
    rw [Nat.testBit_mod_two_pow]
    by_cases inside : index < alphabet.length symbol
    · rw [decide_eq_true inside, Bool.true_and, continues index inside, testBit_reverse inside]
    · rw [decide_eq_false inside, Bool.false_and, Nat.testBit_lt_two_pow]
      exact Nat.lt_of_lt_of_le (reverse_lt _ _)
        (Nat.pow_le_pow_right (by decide) (Nat.not_lt.mp inside))
  · intro same index inside
    rw [← testBit_reverse inside, ← same, Nat.testBit_mod_two_pow, decide_eq_true inside,
      Bool.true_and]

end Words

end PicoJvm.Inflate
