import Mathlib.Data.List.GetD
import PicoJvm.Lib.LastMark
import PicoJvm.Loading.ClassName

/-!
# Packages of class names

The comparison of the packages of two classes by their names.
-/

namespace PicoJvm.Names

open PicoJvm.Lib.LastMark
open PicoJvm.Loading

/-! ## The comparison -/

/-- The code of `[`. -/
def bracket : UInt8 := 0x5B

/-- The code of `L`. -/
def classMark : UInt8 := 0x4C

/-- `byte_at`. -/
def byteAt (name : Name) (index : Nat) : UInt8 :=
  name.getD index 0

/-- The loop of `strrchr`, from a length downwards. -/
def strrchrFrom (name : Name) (chr : UInt8) : Nat → Int
  | 0 => -1
  | len + 1 => if byteAt name len = chr then len else strrchrFrom name chr len

/-- `Symbol::strrchr`. -/
def strrchr (name : Name) (chr : UInt8) : Int :=
  strrchrFrom name chr name.length

/-- The loop that skips over `[`s. -/
def skipBrackets : Name → Nat
  | [] => 0
  | chr :: rest => if chr = bracket then skipBrackets rest + 1 else 0

/-- `Symbol::is_same_class_package`, of the symbol `this`. -/
def isSameClassPackage (this other : Name) : Bool :=
  let end1 := strrchr this slash
  let end2 := strrchr other slash
  if end1 < 0 ∨ end2 < 0 then
    decide (end1 = end2)
  else
    let start1 := skipBrackets this
    if start1 ≠ 0 ∧ byteAt this start1 ≠ classMark then
      false
    else
      -- the brackets of `this` once more
      let start2 := skipBrackets this
      if start2 ≠ 0 ∧ byteAt this start2 ≠ classMark then
        false
      else if end1 - start1 ≠ end2 - start2 then
        false
      else
        (List.range (end1 - start1).toNat).all fun index =>
          decide (byteAt this (index + start1) = byteAt other (index + start2))

/-! ## What it is for -/

/-- The package of a name, up to its last slash; that of an array is the package of its elements. -/
def packageOf (name : Name) : Option Name :=
  (beforeLast slash name).map fun text =>
    if skipBrackets name = 0 then text else text.drop (skipBrackets name + 1)

/-- The name of an array of objects has an `L` behind its brackets, and that of an array of basic
values has no slash. -/
def IsClassName (name : Name) : Prop :=
  skipBrackets name ≠ 0 → slash ∈ name → byteAt name (skipBrackets name) = classMark

/-- The other name reads, behind as many characters as this name has brackets, like this name
without its brackets. -/
def Confusable (this other : Name) : Prop :=
  ∃ package front,
    packageOf this = some package ∧ 0 < skipBrackets this ∧ front.length = skipBrackets this ∧
      beforeLast slash other = some (front ++ classMark :: package)

/-- There is no package to compare, or both names have the same brackets, or they differ in their
brackets and their packages and are not confusable. -/
def ReadsApart (this other : Name) : Prop :=
  slash ∉ this ∨ slash ∉ other ∨ skipBrackets this = skipBrackets other ∨
    (packageOf this ≠ packageOf other ∧ ¬ Confusable this other)

/-! ## Cutting names -/

theorem strrchrFrom_of_absent
    {name : Name}
    {chr : UInt8}
    {len : Nat}
    (absent : ∀ index, index < len → byteAt name index ≠ chr) :
    strrchrFrom name chr len = -1 := by
  induction len with
  | zero =>
      rfl
  | succ len inductionHypothesis =>
      rw [strrchrFrom, if_neg (absent len (Nat.lt_succ_self len))]
      exact inductionHypothesis fun index below => absent index (Nat.lt_succ_of_lt below)

theorem strrchr_of_absent
    {name : Name}
    {chr : UInt8}
    (absent : chr ∉ name) :
    strrchr name chr = -1 := by
  apply strrchrFrom_of_absent
  intro index below isChr
  apply absent
  rw [← isChr, byteAt, List.getD_eq_getElem _ _ below]
  exact List.getElem_mem below

theorem strrchrFrom_of_last
    {name : Name}
    {chr : UInt8}
    {place more : Nat}
    (isChr : byteAt name place = chr)
    (absent : ∀ index, place < index → index < place + 1 + more → byteAt name index ≠ chr) :
    strrchrFrom name chr (place + 1 + more) = place := by
  induction more with
  | zero =>
      rw [Nat.add_zero, strrchrFrom, if_pos isChr]
  | succ more inductionHypothesis =>
      rw [← Nat.add_assoc, strrchrFrom, if_neg (absent _ (by omega) (by omega))]
      exact inductionHypothesis fun index above below => absent index above (by omega)

theorem strrchr_of_last
    {text behind : Name}
    {chr : UInt8}
    (last : chr ∉ behind) :
    strrchr (text ++ chr :: behind) chr = text.length := by
  have size : (text ++ chr :: behind).length = text.length + 1 + behind.length := by
    rw [List.length_append, List.length_cons]
    omega
  rw [strrchr, size]
  apply strrchrFrom_of_last
  · rw [byteAt, List.getD_append_right _ _ _ _ (Nat.le_refl _), Nat.sub_self]
    rfl
  · intro index above below isChr
    apply last
    rw [byteAt, List.getD_append_right _ _ _ _ (by omega)] at isChr
    obtain ⟨place, isPlace⟩ : ∃ place, index - text.length = place + 1 :=
      ⟨index - text.length - 1, by omega⟩
    rw [isPlace, List.getD_cons_succ, List.getD_eq_getElem _ _ (by omega)] at isChr
    rw [← isChr]
    exact List.getElem_mem _

/-- A text is its brackets and a rest that starts with none. -/
theorem skipBrackets_split (text : Name) :
    ∃ rest, text = List.replicate (skipBrackets text) bracket ++ rest ∧
      rest.head? ≠ some bracket := by
  induction text with
  | nil =>
      exact ⟨[], rfl, by decide⟩
  | cons first behind inductionHypothesis =>
      rw [skipBrackets]
      by_cases isBracket : first = bracket
      · obtain ⟨rest, split, noBracket⟩ := inductionHypothesis
        refine ⟨rest, ?_, noBracket⟩
        rw [if_pos isBracket, List.replicate_succ, List.cons_append, ← split, isBracket]
      · rw [if_neg isBracket]
        refine ⟨first :: behind, rfl, ?_⟩
        simpa using isBracket

/-- The slash ends the brackets. -/
theorem skipBrackets_append (text behind : Name) :
    skipBrackets (text ++ slash :: behind) = skipBrackets text := by
  induction text with
  | nil =>
      rfl
  | cons first rest inductionHypothesis =>
      rw [List.cons_append, skipBrackets, skipBrackets, inductionHypothesis]

/-! ## Texts before the last slash -/

/-- What the loop compares: two texts of one length from the brackets of the first on. -/
def SameBehind (text text' : Name) : Prop :=
  text.length = text'.length ∧
    text.drop (skipBrackets text) = text'.drop (skipBrackets text)

theorem skipBrackets_le (text : Name) : skipBrackets text ≤ text.length := by
  obtain ⟨rest, split, _⟩ := skipBrackets_split text
  have size := congrArg List.length split
  rw [List.length_append, List.length_replicate] at size
  omega

/-- The loop over the bytes behind the brackets. -/
theorem all_range_eq_iff
    {text text' behind behind' : Name}
    {start : Nat}
    (sameLength : text.length = text'.length)
    (inside : start ≤ text.length) :
    ((List.range (text.length - start)).all fun index =>
        decide (byteAt (text ++ slash :: behind) (index + start) =
          byteAt (text' ++ slash :: behind') (index + start))) = true ↔
      text.drop start = text'.drop start := by
  have read : ∀ (text behind : Name) {index : Nat}, index + start < text.length →
      (text.drop start)[index]? = some (byteAt (text ++ slash :: behind) (index + start)) := by
    intro text behind index below
    rw [byteAt, List.getD_append _ _ _ _ below, List.getD_eq_getElem _ _ below,
      List.getElem?_drop, Nat.add_comm start, List.getElem?_eq_getElem below]
  rw [List.all_eq_true]
  constructor
  · intro all
    apply List.ext_getElem?
    intro index
    by_cases below : index + start < text.length
    · have same := all index (List.mem_range.mpr (by omega))
      rw [read text behind below, read text' behind' (sameLength ▸ below), of_decide_eq_true same]
    · rw [List.getElem?_eq_none (by rw [List.length_drop]; omega),
        List.getElem?_eq_none (by rw [List.length_drop]; omega)]
  · intro same index inRange
    have below : index + start < text.length := by
      have := List.mem_range.mp inRange
      omega
    have first := read text behind below
    have second := read text' behind' (sameLength ▸ below)
    rw [same, second] at first
    exact decide_eq_true (Option.some.inj first).symm

/-- The comparison of two names with packages. -/
theorem isSameClassPackage_iff_sameBehind
    {text text' behind behind' : Name}
    (isClassName : IsClassName (text ++ slash :: behind))
    (last : slash ∉ behind)
    (last' : slash ∉ behind') :
    isSameClassPackage (text ++ slash :: behind) (text' ++ slash :: behind') = true ↔
      SameBehind text text' := by
  have brackets := skipBrackets_append text behind
  have inside := skipBrackets_le text
  have marked : ¬ (skipBrackets text ≠ 0 ∧
      byteAt (text ++ slash :: behind) (skipBrackets text) ≠ classMark) := by
    rintro ⟨some, notMark⟩
    apply notMark
    rw [← brackets] at some ⊢
    exact isClassName some (List.mem_append_right _ List.mem_cons_self)
  have notNegative : ¬ ((text.length : Int) < 0 ∨ (text'.length : Int) < 0) := by omega
  unfold isSameClassPackage SameBehind
  dsimp only
  rw [strrchr_of_last last, strrchr_of_last last', brackets, if_neg notNegative, if_neg marked,
    if_neg marked]
  by_cases sameLength : text.length = text'.length
  · have sameEnd : ¬ ((text.length : Int) - skipBrackets text ≠
        (text'.length : Int) - skipBrackets text) := by
      omega
    have size : ((text.length : Int) - skipBrackets text).toNat =
        text.length - skipBrackets text := by
      omega
    rw [if_neg sameEnd, size, all_range_eq_iff sameLength inside]
    exact (and_iff_right sameLength).symm
  · have otherEnd : (text.length : Int) - skipBrackets text ≠
        (text'.length : Int) - skipBrackets text := by
      omega
    rw [if_pos otherEnd]
    simp [sameLength]

/-- The package within the text before the last slash. -/
def packageText (text : Name) : Name :=
  if skipBrackets text = 0 then text else text.drop (skipBrackets text + 1)

theorem packageOf_split
    {text behind : Name}
    (last : slash ∉ behind) :
    packageOf (text ++ slash :: behind) = some (packageText text) := by
  have cut : beforeLast slash (text ++ slash :: behind) = some text :=
    beforeLast_eq_some_iff.mpr ⟨behind, rfl, last⟩
  rw [packageOf, cut, Option.map_some, skipBrackets_append]
  rfl

/-- The text of an array of objects: its brackets, an `L` and its package. -/
theorem drop_skipBrackets
    {text behind : Name}
    (isClassName : IsClassName (text ++ slash :: behind)) :
    text.drop (skipBrackets text) =
      if skipBrackets text = 0 then packageText text else classMark :: packageText text := by
  unfold packageText
  split
  · next none =>
      rw [none, List.drop_zero]
  · next some =>
      have brackets := skipBrackets_append text behind
      have isMark := isClassName (by rwa [brackets])
        (List.mem_append_right _ List.mem_cons_self)
      rw [brackets, byteAt] at isMark
      have inside : skipBrackets text < text.length := by
        refine lt_of_le_of_ne (skipBrackets_le text) fun atEnd => ?_
        rw [atEnd, List.getD_append_right _ _ _ _ (Nat.le_refl _), Nat.sub_self] at isMark
        exact absurd isMark (show slash ≠ classMark by decide)
      rw [List.getD_append _ _ _ _ inside, List.getD_eq_getElem _ _ inside] at isMark
      rw [List.drop_eq_getElem_cons inside, isMark]

/-! ## Which names are compared rightly -/

/-- With other brackets the texts are the same just when the names are confusable. -/
theorem sameBehind_iff_of_ne
    {text text' behind : Name}
    (isClassName : IsClassName (text ++ slash :: behind))
    (other : skipBrackets text ≠ skipBrackets text') :
    SameBehind text text' ↔
      ∃ front, 0 < skipBrackets text ∧ front.length = skipBrackets text ∧
        text' = front ++ classMark :: packageText text := by
  have rest := drop_skipBrackets isClassName
  have inside := skipBrackets_le text
  have size := congrArg List.length rest
  rw [List.length_drop] at size
  by_cases none : skipBrackets text = 0
  · -- a text without brackets would be the other text as a whole
    constructor
    · rintro ⟨_, same⟩
      rw [none, List.drop_zero, List.drop_zero] at same
      exact absurd (congrArg skipBrackets same) other
    · rintro ⟨_, some, _⟩
      exact absurd none (Nat.ne_of_gt some)
  · rw [if_neg none] at rest size
    constructor
    · rintro ⟨sameLength, same⟩
      refine ⟨text'.take (skipBrackets text), Nat.pos_of_ne_zero none, ?_, ?_⟩
      · rw [List.length_take]
        omega
      · rw [← rest, same, List.take_append_drop]
    · rintro ⟨front, _, frontLength, isText⟩
      refine ⟨?_, ?_⟩
      · rw [isText, List.length_append, List.length_cons]
        rw [List.length_cons] at size
        omega
      · rw [rest, isText, ← frontLength, List.drop_left]

/-- Names of one package with other brackets are told apart. -/
theorem not_sameBehind_of_packageText
    {text text' behind behind' : Name}
    (isClassName : IsClassName (text ++ slash :: behind))
    (isClassName' : IsClassName (text' ++ slash :: behind'))
    (other : skipBrackets text ≠ skipBrackets text')
    (same : packageText text = packageText text') :
    ¬ SameBehind text text' := by
  rintro ⟨sameLength, _⟩
  have size := congrArg List.length (drop_skipBrackets isClassName)
  have size' := congrArg List.length (drop_skipBrackets isClassName')
  have inside := skipBrackets_le text
  have inside' := skipBrackets_le text'
  rw [List.length_drop] at size size'
  rw [← same] at size'
  split at size <;> split at size' <;> (try rw [List.length_cons] at size) <;>
    (try rw [List.length_cons] at size') <;> omega

/-- With the same brackets the texts are the same just when the packages are. -/
theorem sameBehind_iff_of_eq
    {text text' behind behind' : Name}
    (isClassName : IsClassName (text ++ slash :: behind))
    (isClassName' : IsClassName (text' ++ slash :: behind'))
    (same : skipBrackets text = skipBrackets text') :
    SameBehind text text' ↔ packageText text = packageText text' := by
  have rest := drop_skipBrackets isClassName
  have rest' := drop_skipBrackets isClassName'
  have inside := skipBrackets_le text
  have inside' := skipBrackets_le text'
  have drops : text.drop (skipBrackets text) = text'.drop (skipBrackets text) ↔
      packageText text = packageText text' := by
    rw [rest, same, rest', ← same]
    split
    · exact Iff.rfl
    · exact List.cons_inj_right classMark
  rw [SameBehind, drops]
  constructor
  · exact And.right
  · intro samePackage
    refine ⟨?_, samePackage⟩
    have sizes := congrArg List.length (drops.mpr samePackage)
    rw [List.length_drop, List.length_drop] at sizes
    omega

instance (name : Name) : Decidable (IsClassName name) :=
  inferInstanceAs (Decidable (_ → _ → _))

end PicoJvm.Names
