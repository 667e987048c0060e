import Mathlib.Data.List.TakeWhile
import PicoJvm.Loading.ClassName

/-!
# Checks of names

The quick check of class names, the full one, and the checks of field and method names, on names of
ASCII characters.
-/

namespace PicoJvm.Names

open PicoJvm.Loading

/-! ## The checks -/

/-- `Symbol::is_valid_field_name`. -/
def isValidFieldName (name : Name) : Bool :=
  decide (skipSimpleIdentifier name 0 = some name.length)

/-- The bytes of `<init>`. -/
def objectInitializerName : Name :=
  [0x3C, 0x69, 0x6E, 0x69, 0x74, 0x3E]

/-- The bytes of `<clinit>`. -/
def classInitializerName : Name :=
  [0x3C, 0x63, 0x6C, 0x69, 0x6E, 0x69, 0x74, 0x3E]

/-- `Symbol::is_valid_method_name`. -/
def isValidMethodName (name : Name) : Bool :=
  isValidFieldName name || decide (name = objectInitializerName) ||
    decide (name = classInitializerName)

/-- The full check accepts the whole name. -/
def isClassIdentifierInFull (name : Name) : Bool :=
  decide (skipClassIdentifier name (name.length + 1) 0 = some name.length)

/-! ## What names are -/

def IsAscii (name : Name) : Prop :=
  ∀ chr ∈ name, chr.toNat < 128

instance (name : Name) : Decidable (IsAscii name) :=
  List.decidableBAll (fun chr : UInt8 => chr.toNat < 128) name

/-- A letter, and letters and digits. -/
def IsIdentifier (name : Name) : Prop :=
  ∃ first rest, name = first :: rest ∧ letterDigitTable first.toNat = 1 ∧
    ∀ chr ∈ rest, letterDigitTable chr.toNat ≠ 0

/-- Identifiers with single slashes between them. -/
inductive IsClassIdentifier : Name → Prop
  | simple {name : Name} : IsIdentifier name → IsClassIdentifier name
  | qualified {first rest : Name} :
      IsIdentifier first → IsClassIdentifier rest → IsClassIdentifier (first ++ slash :: rest)

/-- The encoded type of an array, or of a basic value. -/
def IsTypeName (state : Universe) (name : Name) : Prop :=
  state.isValidFieldType name = true ∧ (name.length = 1 ∨ state.isArrayType name = true)

/-- The quick check accepts what the full one accepts, and the names accepted for classes, fields
and methods are what they should be. -/
structure NamesChecked (name : Name) : Prop where
  quickly : isClassIdentifierQuick true name = true ↔ isClassIdentifierInFull name = true
  ofClass :
    ∀ state : Universe, state.isValidClassName name = true ↔
      IsClassIdentifier name ∨ IsTypeName state name
  ofField : isValidFieldName name = true ↔ IsIdentifier name
  ofMethod :
    isValidMethodName name = true ↔
      IsIdentifier name ∨ name = objectInitializerName ∨ name = classInitializerName

/-! ## Identifiers -/

/-- A letter or a digit. -/
def isTail (chr : UInt8) : Bool :=
  decide (letterDigitTable chr.toNat ≠ 0)

/-- The length of the identifier a name starts with. -/
def identifierLength : Name → Option Nat
  | [] => none
  | first :: rest =>
      if letterDigitTable first.toNat = 1 then some ((rest.takeWhile isTail).length + 1) else none

section Scans

variable {name : Name}

theorem IsAscii.tail {first : UInt8} (isAscii : IsAscii (first :: name)) : IsAscii name :=
  fun chr found => isAscii chr (List.mem_cons_of_mem _ found)

theorem IsAscii.drop (isAscii : IsAscii name) (position : Nat) : IsAscii (name.drop position) :=
  fun chr found => isAscii chr (List.mem_of_mem_drop found)

theorem letterDigitTable_zero : letterDigitTable 0 = 0 := by
  decide

theorem getNextJcharFromUtf8_ascii
    {position : Nat}
    {chr : UInt8}
    {rest : Name}
    (isAscii : IsAscii name)
    (here : name.drop position = chr :: rest) :
    getNextJcharFromUtf8 name position =
      if chr.toNat = 0 then none else some (position + 1, chr.toNat) := by
  have found : name[position]? = some chr := by
    rw [← List.head?_drop, here]
    rfl
  have small : chr.toNat < 128 := isAscii chr (List.mem_of_getElem? found)
  unfold getNextJcharFromUtf8
  rw [found]
  dsimp only
  split
  · rfl
  · rfl

/-- The slow scan goes over the same letters and digits. -/
theorem skipLettersAndDigits_ascii
    (isAscii : IsAscii name)
    (fuel position : Nat)
    (enough : name.length ≤ position + fuel) :
    skipLettersAndDigits name fuel position =
      position + ((name.drop position).takeWhile isTail).length := by
  induction fuel generalizing position with
  | zero =>
      rw [skipLettersAndDigits, List.drop_eq_nil_of_le (by omega)]
      rfl
  | succ fuel inductionHypothesis =>
      rw [skipLettersAndDigits]
      cases here : name.drop position with
      | nil =>
          have atEnd := List.drop_eq_nil_iff.mp here
          rw [if_neg (by omega)]
          rfl
      | cons chr rest =>
          have inside : position < name.length := by
            by_contra beyond
            rw [List.drop_eq_nil_of_le (by omega)] at here
            cases here
          have behind : name.drop (position + 1) = rest := by
            rw [← List.tail_drop, here]
            rfl
          have onward := inductionHypothesis (position + 1) (by omega)
          rw [behind] at onward
          rw [if_pos inside, getNextJcharFromUtf8_ascii isAscii here]
          by_cases isNul : chr.toNat = 0
          · have notTail : isTail chr = false := by
              rw [isTail, isNul]
              rfl
            rw [if_pos isNul, List.takeWhile_cons, notTail]
            rfl
          · have small : chr.toNat < 128 :=
              isAscii.drop position chr (by rw [here]; exact List.mem_cons_self)
            have isLetter : isLetterOrDigit chr.toNat = isTail chr := by
              unfold isLetterOrDigit isTail
              have notBig : ¬ chr.toNat > 127 := by omega
              simp [notBig]
            rw [if_neg isNul]
            dsimp only
            rw [isLetter, List.takeWhile_cons]
            cases isTail chr with
            | true =>
                rw [if_pos rfl, if_pos rfl, onward, List.length_cons]
                omega
            | false =>
                rfl

theorem skipSimpleIdentifierSlow_ascii
    (isAscii : IsAscii name)
    (position : Nat) :
    skipSimpleIdentifierSlow name position =
      (identifierLength (name.drop position)).map (position + ·) := by
  unfold skipSimpleIdentifierSlow
  cases here : name.drop position with
  | nil =>
      have none : name[position]? = none := by
        rw [← List.head?_drop, here]
        rfl
      rw [getNextJcharFromUtf8, none]
      rfl
  | cons chr rest =>
      have behind : name.drop (position + 1) = rest := by
        rw [← List.tail_drop, here]
        rfl
      have small : chr.toNat < 128 :=
        isAscii.drop position chr (by rw [here]; exact List.mem_cons_self)
      rw [getNextJcharFromUtf8_ascii isAscii here, identifierLength]
      by_cases isNul : chr.toNat = 0
      · rw [if_pos isNul, isNul, letterDigitTable_zero]
        rfl
      · have isLetter : isLetter chr.toNat = decide (letterDigitTable chr.toNat = 1) := by
          unfold isLetter
          have notBig : ¬ chr.toNat > 127 := by omega
          simp [notBig]
        rw [if_neg isNul]
        dsimp only
        rw [isLetter]
        by_cases first : letterDigitTable chr.toNat = 1
        · rw [if_pos (decide_eq_true first), if_pos first,
            skipLettersAndDigits_ascii isAscii name.length (position + 1) (by omega), behind,
            Option.map_some]
          congr 1
          omega
        · rw [if_neg (by simpa using first), if_neg first]
          rfl

theorem takeWhile_fast
    (isAscii : IsAscii name) :
    (name.takeWhile fun chr =>
        !suspicious chr && decide (letterDigitTable chr.toNat ≠ 0)) =
      name.takeWhile isTail := by
  induction name with
  | nil =>
      rfl
  | cons chr rest inductionHypothesis =>
      have small := isAscii chr List.mem_cons_self
      have same : (!suspicious chr && decide (letterDigitTable chr.toNat ≠ 0)) = isTail chr := by
        unfold suspicious isTail
        by_cases isNul : chr.toNat = 0
        · rw [isNul]
          rfl
        · have notBig : ¬ (chr.toNat > 127 ∨ chr.toNat = 0) := by omega
          simp [notBig]
      rw [List.takeWhile_cons, List.takeWhile_cons, same, inductionHypothesis isAscii.tail]

/-- Both paths find the end of the same identifier. -/
theorem skipSimpleIdentifier_ascii
    (isAscii : IsAscii name)
    (position : Nat) :
    skipSimpleIdentifier name position =
      (identifierLength (name.drop position)).map (position + ·) := by
  have slow := skipSimpleIdentifierSlow_ascii isAscii position
  unfold skipSimpleIdentifier
  split
  · exact slow
  · cases here : name.drop position with
    | nil =>
        rfl
    | cons chr rest =>
        rw [here] at slow
        have restAscii : IsAscii rest := by
          have := isAscii.drop position
          rw [here] at this
          exact this.tail
        dsimp only
        rw [takeWhile_fast restAscii]
        split
        · exact slow
        · rw [identifierLength]
          split
          · next notLetter =>
              rfl
          · next letter =>
              have isResult : (some ((rest.takeWhile isTail).length + 1)).map (position + ·) =
                  some (position + 1 + (rest.takeWhile isTail).length) := by
                rw [Option.map_some]
                congr 1
                omega
              rw [identifierLength, if_pos (not_not.mp letter), isResult] at slow
              rw [if_pos (not_not.mp letter), isResult]
              split
              · rfl
              · split
                · exact slow
                · rfl

theorem identifierLength_eq_some_iff
    {length : Nat} :
    identifierLength name = some length ↔
      ∃ identifier behind, name = identifier ++ behind ∧ identifier.length = length ∧
        IsIdentifier identifier ∧ ∀ chr, behind.head? = some chr → isTail chr = false := by
  cases name with
  | nil =>
      constructor
      · intro impossible
        cases impossible
      · rintro ⟨identifier, behind, split, _, ⟨first, rest, isIdentifier, _⟩, _⟩
        rw [isIdentifier] at split
        cases split
  | cons first rest =>
      rw [identifierLength]
      constructor
      · intro found
        split at found
        · next letter =>
            cases found
            refine ⟨first :: rest.takeWhile isTail, rest.dropWhile isTail, ?_, rfl,
              ⟨first, _, rfl, letter, ?_⟩, ?_⟩
            · rw [List.cons_append, List.takeWhile_append_dropWhile]
            · intro chr inTail
              have inside : isTail chr = true := List.mem_takeWhile_imp inTail
              exact of_decide_eq_true inside
            · intro chr isHead
              have stopped := List.head?_dropWhile_not isTail rest
              rw [isHead] at stopped
              simpa using stopped
        · cases found
      · rintro ⟨identifier, behind, split, isLength, ⟨first', rest', isIdentifier, letter, tail⟩,
          stopped⟩
        subst isIdentifier
        injection split with isFirst isRest
        have isRest' : rest = rest' ++ behind := isRest
        rw [isFirst, if_pos letter, isRest']
        have whole : (rest' ++ behind).takeWhile isTail = rest' := by
          have all : ∀ chr ∈ rest', isTail chr = true :=
            fun chr found => decide_eq_true (tail chr found)
          rw [List.takeWhile_append_of_pos all]
          cases behind with
          | nil =>
              rw [List.takeWhile_nil, List.append_nil]
          | cons chr others =>
              rw [List.takeWhile_cons, stopped chr rfl]
              exact List.append_nil _
        rw [whole, ← isLength, List.length_cons]

end Scans

/-! ## Class identifiers -/

section ClassIdentifiers

variable {name : Name}

theorem isTail_slash : isTail slash = false := by
  decide

theorem IsIdentifier.ne_nil (isIdentifier : IsIdentifier name) : name ≠ [] := by
  obtain ⟨first, rest, split, _⟩ := isIdentifier
  rw [split]
  exact List.cons_ne_nil first rest

/-- What stands behind the first identifier decides. -/
theorem isClassIdentifier_append_iff
    {identifier behind : Name}
    (isIdentifier : IsIdentifier identifier)
    (stopped : ∀ chr, behind.head? = some chr → isTail chr = false) :
    IsClassIdentifier (identifier ++ behind) ↔
      behind = [] ∨ ∃ more, behind = slash :: more ∧ IsClassIdentifier more := by
  have isLength : identifierLength (identifier ++ behind) = some identifier.length :=
    identifierLength_eq_some_iff.2 ⟨identifier, behind, rfl, rfl, isIdentifier, stopped⟩
  constructor
  · intro isName
    generalize whole : identifier ++ behind = name at isName isLength
    cases isName with
    | simple isSimple =>
        have simpleLength : identifierLength name = some name.length :=
          identifierLength_eq_some_iff.2
            ⟨name, [], (List.append_nil name).symm, rfl, isSimple, fun chr found => by cases found⟩
        rw [simpleLength, Option.some.injEq] at isLength
        have lengths := congrArg List.length whole
        rw [List.length_append] at lengths
        exact Or.inl (List.eq_nil_of_length_eq_zero (by omega))
    | qualified isFirst isRest =>
        rename_i first rest
        have firstLength : identifierLength (first ++ slash :: rest) = some first.length := by
          apply identifierLength_eq_some_iff.2
          refine ⟨first, slash :: rest, rfl, rfl, isFirst, ?_⟩
          intro chr found
          cases found
          exact isTail_slash
        rw [firstLength, Option.some.injEq] at isLength
        have parts := List.append_inj whole isLength.symm
        exact Or.inr ⟨rest, parts.2, isRest⟩
  · rintro (nothing | ⟨more, isMore, isRest⟩)
    · rw [nothing, List.append_nil]
      exact .simple isIdentifier
    · rw [isMore]
      exact .qualified isIdentifier isRest

/-- A class identifier starts with an identifier. -/
theorem IsClassIdentifier.split
    (isName : IsClassIdentifier name) :
    ∃ identifier behind, name = identifier ++ behind ∧ IsIdentifier identifier ∧
      ∀ chr, behind.head? = some chr → isTail chr = false := by
  cases isName with
  | simple isIdentifier =>
      exact ⟨name, [], (List.append_nil name).symm, isIdentifier, fun chr found => by cases found⟩
  | qualified isFirst isRest =>
      refine ⟨_, _, rfl, isFirst, ?_⟩
      intro chr found
      cases found
      exact isTail_slash

theorem IsClassIdentifier.ne_nil (isName : IsClassIdentifier name) : name ≠ [] := by
  obtain ⟨identifier, behind, split, isIdentifier, _⟩ := isName.split
  rw [split]
  exact List.append_ne_nil_of_left_ne_nil isIdentifier.ne_nil behind

/-- The full check goes from identifier to identifier. -/
theorem skipClassIdentifier_eq_length_iff
    (isAscii : IsAscii name)
    (fuel position : Nat)
    (enough : name.length < position + fuel)
    (inside : position ≤ name.length) :
    skipClassIdentifier name fuel position = some name.length ↔
      IsClassIdentifier (name.drop position) := by
  induction fuel generalizing position with
  | zero =>
      exact absurd enough (by omega)
  | succ fuel inductionHypothesis =>
      rw [skipClassIdentifier, skipSimpleIdentifier_ascii isAscii]
      cases found : identifierLength (name.drop position) with
      | none =>
          refine iff_of_false (fun impossible => by cases impossible) fun isName => ?_
          obtain ⟨identifier, behind, split, isIdentifier, stopped⟩ := isName.split
          have isLength := identifierLength_eq_some_iff.2
            ⟨identifier, behind, split, rfl, isIdentifier, stopped⟩
          rw [found] at isLength
          cases isLength
      | some length =>
          obtain ⟨identifier, behind, split, isLength, isIdentifier, stopped⟩ :=
            identifierLength_eq_some_iff.1 found
          have lengths := congrArg List.length split
          rw [List.length_drop, List.length_append, isLength] at lengths
          have afterwards : name.drop (position + length) = behind := by
            rw [← List.drop_drop, split, ← isLength, List.drop_left]
          rw [split, isClassIdentifier_append_iff isIdentifier stopped, Option.map_some]
          dsimp only
          cases behind with
          | nil =>
              rw [if_pos (by simp at lengths; omega)]
              have isEnd : position + length = name.length := by simp at lengths; omega
              exact iff_of_true (congrArg some isEnd) (Or.inl rfl)
          | cons chr more =>
              rw [List.length_cons] at lengths
              have isHere : name.getD (position + length) 0 = chr := by
                rw [List.getD_eq_getElem?_getD, ← List.head?_drop, afterwards]
                rfl
              have isMore : name.drop (position + length + 1) = more := by
                rw [← List.tail_drop, afterwards]
                rfl
              rw [if_neg (by omega), isHere]
              by_cases isSlash : chr = slash
              · rw [if_neg (by simpa using isSlash),
                  inductionHypothesis (position + length + 1) (by omega) (by omega), isMore]
                simp [isSlash]
              · rw [if_pos isSlash]
                refine iff_of_false (fun atEnd => ?_) ?_
                · injection atEnd with isEnd
                  omega
                · simp [isSlash]

theorem isClassIdentifierInFull_iff
    (isAscii : IsAscii name) :
    isClassIdentifierInFull name = true ↔ IsClassIdentifier name := by
  have whole := skipClassIdentifier_eq_length_iff isAscii (name.length + 1) 0 (by omega)
    (Nat.zero_le _)
  rw [List.drop_zero] at whole
  rw [isClassIdentifierInFull, decide_eq_true_iff, whole]

/-! ## The quick check -/

/-- The quick check inside an identifier. -/
theorem isClassIdentifierQuick_false_iff
    (isAscii : IsAscii name) :
    isClassIdentifierQuick false name = true ↔
      ∃ tail behind, name = tail ++ behind ∧ (∀ chr ∈ tail, letterDigitTable chr.toNat ≠ 0) ∧
        (behind = [] ∨
          ∃ more, behind = slash :: more ∧ isClassIdentifierQuick true more = true) := by
  induction name with
  | nil =>
      exact iff_of_true rfl ⟨[], [], rfl, List.forall_mem_nil _, Or.inl rfl⟩
  | cons first rest inductionHypothesis =>
      have small := isAscii first List.mem_cons_self
      rw [isClassIdentifierQuick, if_neg (by omega), if_neg Bool.false_ne_true]
      constructor
      · intro accepted
        split at accepted
        · next inTail =>
            obtain ⟨tail, behind, split, allTail, after⟩ :=
              (inductionHypothesis isAscii.tail).mp accepted
            refine ⟨first :: tail, behind, by rw [split, List.cons_append], ?_, after⟩
            exact List.forall_mem_cons.mpr ⟨inTail, allTail⟩
        · rw [Bool.and_eq_true, decide_eq_true_iff] at accepted
          refine ⟨[], first :: rest, rfl, List.forall_mem_nil _, Or.inr ⟨rest, ?_, accepted.2⟩⟩
          rw [accepted.1]
      · rintro ⟨tail, behind, split, allTail, after⟩
        cases tail with
        | nil =>
            obtain nothing | ⟨more, isMore, accepted⟩ := after
            · rw [nothing] at split
              cases split
            · have both : first :: rest = slash :: more := by
                rw [split, isMore]
                rfl
              injection both with isFirst isRest
              rw [isFirst, if_neg (by decide), decide_eq_true rfl, isRest, accepted]
              rfl
        | cons first' tail =>
            injection split with isFirst isRest
            have inTail := allTail first' List.mem_cons_self
            rw [isFirst, if_pos inTail, inductionHypothesis isAscii.tail]
            exact ⟨tail, behind, isRest,
              fun chr found => allTail chr (List.mem_cons_of_mem _ found), after⟩

/-- The quick check takes an identifier, and then goes on behind a slash. -/
theorem isClassIdentifierQuick_iff
    (isAscii : IsAscii name) :
    isClassIdentifierQuick true name = true ↔
      name = [] ∨ ∃ identifier behind, name = identifier ++ behind ∧ IsIdentifier identifier ∧
        (behind = [] ∨
          ∃ more, behind = slash :: more ∧ isClassIdentifierQuick true more = true) := by
  cases name with
  | nil =>
      exact iff_of_true rfl (Or.inl rfl)
  | cons first rest =>
      have small := isAscii first List.mem_cons_self
      rw [isClassIdentifierQuick, if_neg (by omega), if_pos rfl, Bool.and_eq_true,
        decide_eq_true_iff, isClassIdentifierQuick_false_iff isAscii.tail]
      constructor
      · rintro ⟨letter, tail, behind, split, allTail, after⟩
        refine Or.inr ⟨first :: tail, behind, by rw [split, List.cons_append], ?_, after⟩
        exact ⟨first, tail, rfl, letter, allTail⟩
      · rintro (impossible | ⟨identifier, behind, split, ⟨first', tail, isIdentifier, letter,
          allTail⟩, after⟩)
        · cases impossible
        · rw [isIdentifier] at split
          injection split with isFirst isRest
          rw [isFirst]
          exact ⟨letter, tail, behind, isRest, allTail, after⟩

/-- The quick check stops at an end behind a slash as well. -/
theorem isClassIdentifierQuick_true_iff
    (isAscii : IsAscii name) :
    isClassIdentifierQuick true name = true ↔
      IsClassIdentifier name ∨ name = [] ∨
        ∃ front, IsClassIdentifier front ∧ name = front ++ [slash] := by
  generalize isLength : name.length = length
  induction length using Nat.strong_induction_on generalizing name with
  | h length inductionHypothesis =>
      have onward :
          ∀ identifier more : Name, name = identifier ++ slash :: more →
            (isClassIdentifierQuick true more = true ↔
              IsClassIdentifier more ∨ more = [] ∨
                ∃ front, IsClassIdentifier front ∧ more = front ++ [slash]) := by
        intro identifier more split
        apply inductionHypothesis more.length
        · rw [← isLength, split, List.length_append, List.length_cons]
          omega
        · intro chr found
          apply isAscii chr
          rw [split]
          exact List.mem_append_right _ (List.mem_cons_of_mem _ found)
        · rfl
      rw [isClassIdentifierQuick_iff isAscii]
      constructor
      · rintro (nothing | ⟨identifier, behind, split, isIdentifier, after⟩)
        · exact Or.inr (Or.inl nothing)
        · obtain nothing | ⟨more, isMore, accepted⟩ := after
          · rw [split, nothing, List.append_nil]
            exact Or.inl (.simple isIdentifier)
          · rw [isMore] at split
            obtain isName | nothing | ⟨front, isFront, ending⟩ :=
              (onward identifier more split).mp accepted
            · rw [split]
              exact Or.inl (.qualified isIdentifier isName)
            · rw [split, nothing]
              exact Or.inr (Or.inr ⟨identifier, .simple isIdentifier, rfl⟩)
            · refine Or.inr (Or.inr
                ⟨identifier ++ slash :: front, .qualified isIdentifier isFront, ?_⟩)
              rw [split, ending, List.append_assoc, List.cons_append]
      · rintro (isName | nothing | ⟨front, isFront, ending⟩)
        · right
          cases isName with
          | simple isIdentifier =>
              exact ⟨name, [], (List.append_nil name).symm, isIdentifier, Or.inl rfl⟩
          | qualified isFirst isRest =>
              exact ⟨_, _, rfl, isFirst,
                Or.inr ⟨_, rfl, (onward _ _ rfl).mpr (Or.inl isRest)⟩⟩
        · exact Or.inl nothing
        · right
          cases isFront with
          | simple isIdentifier =>
              exact ⟨front, [slash], ending, isIdentifier, Or.inr ⟨[], rfl, rfl⟩⟩
          | qualified isFirst isRest =>
              rename_i first rest
              rw [List.append_assoc, List.cons_append] at ending
              exact ⟨first, slash :: (rest ++ [slash]), ending, isFirst,
                Or.inr ⟨_, rfl, (onward _ _ ending).mpr (Or.inr (Or.inr ⟨rest, isRest, rfl⟩))⟩⟩

end ClassIdentifiers

/-! ## The checks compared -/

section Compared

variable {name : Name}

theorem isValidFieldName_iff
    (isAscii : IsAscii name) :
    isValidFieldName name = true ↔ IsIdentifier name := by
  rw [isValidFieldName, decide_eq_true_iff, skipSimpleIdentifier_ascii isAscii, List.drop_zero]
  have isZero : (identifierLength name).map (0 + ·) = identifierLength name := by
    simp
  rw [isZero, identifierLength_eq_some_iff]
  constructor
  · rintro ⟨identifier, behind, split, isLength, isIdentifier, _⟩
    rw [split, List.length_append] at isLength
    have nothing : behind = [] := List.eq_nil_of_length_eq_zero (by omega)
    rw [split, nothing, List.append_nil]
    exact isIdentifier
  · intro isIdentifier
    exact ⟨name, [], (List.append_nil name).symm, rfl, isIdentifier, fun chr found => by cases found⟩

theorem isValidMethodName_iff
    (isAscii : IsAscii name) :
    isValidMethodName name = true ↔
      IsIdentifier name ∨ name = objectInitializerName ∨ name = classInitializerName := by
  rw [isValidMethodName, Bool.or_eq_true, Bool.or_eq_true, isValidFieldName_iff isAscii,
    decide_eq_true_iff, decide_eq_true_iff, or_assoc]

/-- A slash behind a class identifier ends none. -/
theorem not_isClassIdentifier_append_slash
    (isName : IsClassIdentifier name) :
    ¬ IsClassIdentifier (name ++ [slash]) := by
  induction isName with
  | simple isIdentifier =>
      rename_i name
      have stopped : ∀ chr, [slash].head? = some chr → isTail chr = false := by
        intro chr found
        cases found
        exact isTail_slash
      rw [isClassIdentifier_append_iff isIdentifier stopped]
      rintro (impossible | ⟨more, isMore, isRest⟩)
      · cases impossible
      · injection isMore with _ nothing
        exact isRest.ne_nil nothing.symm
  | qualified isFirst isRest inductionHypothesis =>
      rename_i first rest
      have stopped : ∀ chr, (slash :: (rest ++ [slash])).head? = some chr → isTail chr = false := by
        intro chr found
        cases found
        exact isTail_slash
      rw [List.append_assoc, List.cons_append, isClassIdentifier_append_iff isFirst stopped]
      rintro (impossible | ⟨more, isMore, isName⟩)
      · cases impossible
      · injection isMore with _ same
        rw [← same] at isName
        exact inductionHypothesis isName

theorem isValidClassName_iff
    (isAscii : IsAscii name)
    (agrees :
      isClassIdentifierQuick true name = true ↔ isClassIdentifierInFull name = true)
    (state : Universe) :
    state.isValidClassName name = true ↔ IsClassIdentifier name ∨ IsTypeName state name := by
  have inFull := isClassIdentifierInFull_iff isAscii
  rw [Universe.isValidClassName, IsTypeName]
  split
  · next quickly =>
      exact iff_of_true rfl (Or.inl (inFull.mp (agrees.mp quickly)))
  · next notQuickly =>
      have notName : ¬ IsClassIdentifier name :=
        fun isName => notQuickly (agrees.mpr (inFull.mpr isName))
      split
      · next isType =>
          split
          · next one =>
              exact iff_of_true rfl (Or.inr ⟨isType, Or.inl one⟩)
          · next several =>
              simp [notName, isType, several]
      · next notType =>
          have notFull : decide (skipClassIdentifier name (name.length + 1) 0 = some name.length) =
              false := by
            rw [Bool.eq_false_iff]
            exact fun isName => notName (inFull.mp isName)
          rw [notFull]
          simp [notName, notType]

/-- The checks agree but on the empty name, and on names that end with one slash too many. -/
theorem namesChecked_iff
    (isAscii : IsAscii name) :
    NamesChecked name ↔
      name ≠ [] ∧ ¬ ∃ front, IsClassIdentifier front ∧ name = front ++ [slash] := by
  have quickly := isClassIdentifierQuick_true_iff isAscii
  have inFull := isClassIdentifierInFull_iff isAscii
  constructor
  · intro checked
    have isName : ∀ accepted : isClassIdentifierQuick true name = true, IsClassIdentifier name :=
      fun accepted => inFull.mp (checked.quickly.mp accepted)
    constructor
    · intro nothing
      exact (isName (quickly.mpr (Or.inr (Or.inl nothing)))).ne_nil nothing
    · rintro ⟨front, isFront, ending⟩
      have accepted := isName (quickly.mpr (Or.inr (Or.inr ⟨front, isFront, ending⟩)))
      rw [ending] at accepted
      exact not_isClassIdentifier_append_slash isFront accepted
  · rintro ⟨notNothing, noSlash⟩
    have agrees :
        isClassIdentifierQuick true name = true ↔ isClassIdentifierInFull name = true := by
      rw [quickly, inFull]
      simp [notNothing, noSlash]
    exact ⟨agrees, isValidClassName_iff isAscii agrees, isValidFieldName_iff isAscii,
      isValidMethodName_iff isAscii⟩

/-- The bytes of `java/lang`. -/
def javaLang : Name :=
  [0x6A, 0x61, 0x76, 0x61, 0x2F, 0x6C, 0x61, 0x6E, 0x67]

theorem namesChecked_javaLang : NamesChecked javaLang := by
  apply (namesChecked_iff (by decide)).mpr
  constructor
  · decide
  · rintro ⟨front, _, ending⟩
    have last := congrArg List.getLast? ending
    rw [List.getLast?_concat] at last
    revert last
    decide

/-- The bytes of `java/`. -/
def javaSlash : Name :=
  [0x6A, 0x61, 0x76, 0x61, 0x2F]

/-- Only the quick check accepts this name, and with it the check of class names. -/
theorem not_namesChecked_javaSlash : IsAscii javaSlash ∧ ¬ NamesChecked javaSlash := by
  constructor
  · decide
  · intro checked
    have inFull : isClassIdentifierInFull javaSlash = true := checked.quickly.mp (by decide)
    revert inFull
    decide

end Compared

end PicoJvm.Names
