import Mathlib.Data.List.Basic

/-!
# Sets of numbers in words

A set of small numbers is kept in an array of words of 32 bits. Places outside the array are
told apart from numbers that are not in the set.
-/

namespace PicoJvm.Lib.Bitmap

/-- The words of a set. -/
abbrev Words := List (BitVec 32)

/-- The bit of a number in its word. -/
def mask (number : Nat) : BitVec 32 :=
  1#32 <<< (number % 32)

/-- Whether the bit of a number is set, if its word is there. -/
def test (words : Words) (number : Nat) : Option Bool :=
  words[number / 32]?.map fun word => (word &&& mask number) ≠ 0

/-- Sets the bit of a number, if its word is there. -/
def mark (words : Words) (number : Nat) : Option Words :=
  words[number / 32]?.map fun word => words.set (number / 32) (word ||| mask number)

/-- The numbers of a set. -/
def Holds (words : Words) (number : Nat) : Prop :=
  ∃ word, words[number / 32]? = some word ∧ word.getLsbD (number % 32) = true

theorem mask_eq (number : Nat) : mask number = BitVec.twoPow 32 (number % 32) := by
  rw [mask, BitVec.twoPow_eq]

theorem and_mask_ne_zero_iff (word : BitVec 32) (number : Nat) :
    word &&& mask number ≠ 0 ↔ word.getLsbD (number % 32) = true := by
  have small : number % 32 < 32 := Nat.mod_lt _ (by decide)
  rw [mask_eq, BitVec.and_twoPow]
  by_cases isSet : word.getLsbD (number % 32) = true
  · rw [if_pos isSet, iff_true_right isSet]
    intro zero
    have bit := congrArg (fun word => BitVec.getLsbD word (number % 32)) zero
    simp [BitVec.getLsbD_twoPow] at bit
    omega
  · rw [if_neg isSet]
    simp [isSet]

theorem test_eq_some_iff
    {words : Words} {number : Nat}
    (inside : number / 32 < words.length)
    (result : Bool) :
    test words number = some result ↔ (result = true ↔ Holds words number) := by
  simp only [test, Holds, List.getElem?_eq_getElem inside, Option.map_some, Option.some.injEq,
    exists_eq_left', ← and_mask_ne_zero_iff]
  cases result <;> simp

/-- Marking adds a number and leaves the others. -/
theorem mark_of_lt
    {words : Words} {number : Nat}
    (inside : number / 32 < words.length) :
    ∃ next, mark words number = some next ∧ next.length = words.length ∧
      ∀ other, Holds next other ↔ other = number ∨ Holds words other := by
  refine ⟨_, by rw [mark, List.getElem?_eq_getElem inside]; rfl, List.length_set, ?_⟩
  intro other
  have small : number % 32 < 32 := Nat.mod_lt _ (by decide)
  have otherSmall : other % 32 < 32 := Nat.mod_lt _ (by decide)
  simp only [Holds, List.getElem?_set]
  by_cases sameWord : number / 32 = other / 32
  · rw [if_pos sameWord, if_pos (sameWord ▸ inside), ← sameWord,
      List.getElem?_eq_getElem inside]
    simp only [Option.some.injEq, exists_eq_left', BitVec.getLsbD_or, Bool.or_eq_true, mask_eq,
      BitVec.getLsbD_twoPow, Bool.and_eq_true, decide_eq_true_eq]
    rw [or_comm]
    apply or_congr_left
    constructor
    · rintro ⟨_, sameBit⟩
      omega
    · rintro rfl
      exact ⟨small, rfl⟩
  · rw [if_neg sameWord]
    have different : other ≠ number := by
      rintro rfl
      exact sameWord rfl
    simp [different]

theorem not_holds_zero (count number : Nat) : ¬ Holds (List.replicate count 0) number := by
  rintro ⟨word, isWord, isSet⟩
  rw [List.getElem?_replicate] at isWord
  split at isWord
  · cases isWord
    simp at isSet
  · cases isWord

/-! ## Listing a set -/

/-- The numbers that are in both sets. -/
def both (left right : Words) : Words :=
  List.zipWith (fun word word' => word &&& word') left right

/-- The numbers of the bits of a word that are set, the lowest bit counted as `number`. -/
def bits : (rounds number : Nat) → BitVec 32 → List Nat
  | 0, _, _ => []
  | rounds + 1, number, word =>
      if word = 0 then
        []
      else if word.getLsbD 0 then
        number :: bits rounds (number + 1) (word >>> 1)
      else
        bits rounds (number + 1) (word >>> 1)

/-- The numbers of a set in order, its first word being the word of `number`. -/
def membersFrom : (number : Nat) → Words → List Nat
  | _, [] => []
  | number, word :: words => bits 32 number word ++ membersFrom (number + 32) words

/-- The numbers of a set in order. -/
def members (words : Words) : List Nat :=
  membersFrom 0 words

theorem holds_both_iff
    {left right : Words}
    (sameLength : left.length = right.length)
    (number : Nat) :
    Holds (both left right) number ↔ Holds left number ∧ Holds right number := by
  by_cases inside : number / 32 < left.length
  · simp [Holds, both, List.getElem?_zipWith, List.getElem?_eq_getElem inside,
      List.getElem?_eq_getElem (sameLength ▸ inside)]
  · simp [Holds, both, List.getElem?_zipWith,
      List.getElem?_eq_none (Nat.le_of_not_lt inside)]

theorem mem_bits_iff
    (rounds : Nat) {number other : Nat} {word : BitVec 32} :
    other ∈ bits rounds number word ↔
      ∃ bit < rounds, other = number + bit ∧ word.getLsbD bit = true := by
  induction rounds generalizing number word with
  | zero =>
      simp [bits]
  | succ rounds inductionHypothesis =>
      have later : ∀ bit, (word >>> 1).getLsbD bit = word.getLsbD (bit + 1) := by
        intro bit
        rw [BitVec.getLsbD_ushiftRight, Nat.add_comm]
      have split : (∃ bit < rounds + 1, other = number + bit ∧ word.getLsbD bit = true) ↔
          (other = number ∧ word.getLsbD 0 = true) ∨
            ∃ bit < rounds, other = number + 1 + bit ∧ (word >>> 1).getLsbD bit = true := by
        constructor
        · rintro ⟨bit, small, rfl, isSet⟩
          cases bit with
          | zero =>
              exact Or.inl ⟨rfl, isSet⟩
          | succ bit =>
              exact Or.inr ⟨bit, by omega, by omega, (later bit).trans isSet⟩
        · rintro (⟨rfl, isSet⟩ | ⟨bit, small, rfl, isSet⟩)
          · exact ⟨0, by omega, rfl, isSet⟩
          · exact ⟨bit + 1, by omega, by omega, (later bit).symm.trans isSet⟩
      rw [split, bits]
      by_cases zero : word = 0
      · rw [if_pos zero]
        simp [zero]
      · rw [if_neg zero]
        by_cases lowest : word.getLsbD 0 = true
        · rw [if_pos lowest, List.mem_cons, inductionHypothesis]
          simp [lowest]
        · rw [if_neg lowest, inductionHypothesis, or_iff_right]
          exact fun isLowest => lowest isLowest.2

theorem bits_sorted
    (rounds : Nat) {number : Nat} {word : BitVec 32} :
    (bits rounds number word).Pairwise (fun left right => left < right) := by
  induction rounds generalizing number word with
  | zero =>
      exact List.Pairwise.nil
  | succ rounds inductionHypothesis =>
      rw [bits]
      split_ifs
      · exact List.Pairwise.nil
      · apply List.Pairwise.cons _ inductionHypothesis
        intro other member
        obtain ⟨bit, _, rfl, _⟩ := (mem_bits_iff rounds).mp member
        omega
      · exact inductionHypothesis

theorem mem_membersFrom_iff
    {words : Words} {number other : Nat} :
    other ∈ membersFrom number words ↔
      ∃ place, other = number + place ∧ Holds words place := by
  induction words generalizing number with
  | nil =>
      simp [membersFrom, Holds]
  | cons word words inductionHypothesis =>
      rw [membersFrom, List.mem_append, mem_bits_iff, inductionHypothesis]
      constructor
      · rintro (⟨bit, small, rfl, isSet⟩ | ⟨place, rfl, held⟩)
        · refine ⟨bit, rfl, word, ?_, ?_⟩
          · rw [Nat.div_eq_of_lt small]
            rfl
          · rw [Nat.mod_eq_of_lt small]
            exact isSet
        · obtain ⟨inWord, isWord, isSet⟩ := held
          refine ⟨32 + place, by omega, inWord, ?_, ?_⟩
          · rw [show (32 + place) / 32 = place / 32 + 1 by omega, List.getElem?_cons_succ]
            exact isWord
          · rw [show (32 + place) % 32 = place % 32 by omega]
            exact isSet
      · rintro ⟨place, rfl, inWord, isWord, isSet⟩
        by_cases small : place < 32
        · rw [Nat.div_eq_of_lt small, List.getElem?_cons_zero] at isWord
          rw [Nat.mod_eq_of_lt small] at isSet
          cases isWord
          exact Or.inl ⟨place, small, rfl, isSet⟩
        · refine Or.inr ⟨place - 32, by omega, inWord, ?_, ?_⟩
          · rw [show place / 32 = (place - 32) / 32 + 1 by omega,
              List.getElem?_cons_succ] at isWord
            exact isWord
          · rw [show (place - 32) % 32 = place % 32 by omega]
            exact isSet

theorem mem_members_iff
    {words : Words} {number : Nat} :
    number ∈ members words ↔ Holds words number := by
  rw [members, mem_membersFrom_iff]
  simp

theorem membersFrom_sorted
    (words : Words) (number : Nat) :
    (membersFrom number words).Pairwise (fun left right => left < right) := by
  induction words generalizing number with
  | nil =>
      exact List.Pairwise.nil
  | cons word words inductionHypothesis =>
      apply List.pairwise_append.mpr
      refine ⟨bits_sorted 32, inductionHypothesis (number + 32), ?_⟩
      intro left leftMember right rightMember
      obtain ⟨bit, small, rfl, _⟩ := (mem_bits_iff 32).mp leftMember
      obtain ⟨place, rfl, _⟩ := mem_membersFrom_iff.1 rightMember
      omega

theorem members_nodup (words : Words) : (members words).Nodup :=
  (membersFrom_sorted words 0).imp Nat.ne_of_lt

end PicoJvm.Lib.Bitmap
