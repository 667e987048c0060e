import Mathlib.Data.List.Basic

/-!
# Lists of letters and two-letter pairs

Some letters are the first half of a pair, which their second half completes.
`Paired` lists are made of single letters and whole pairs. `Followed` lists only
promise that no first half lacks its second; they may hold stray second halves.
-/

namespace PicoJvm.Lib.Pairing

universe u

variable {letter : Type u}

/-- The pairs of an alphabet: the second half that belongs to each first half. -/
structure Halves (letter : Type u) where
  second : letter → Option letter
  injective : ∀ {first other half},
    second first = some half → second other = some half → first = other
  disjoint : ∀ {first half}, second first = some half → second half = none

namespace Halves

def IsSecond (halves : Halves letter) (half : letter) : Prop :=
  ∃ first, halves.second first = some half

/-- Neither half of any pair. -/
def IsSingle (halves : Halves letter) (item : letter) : Prop :=
  halves.second item = none ∧ ¬ halves.IsSecond item

end Halves

/-- Single letters and whole pairs, in order. -/
inductive Paired (halves : Halves letter) : List letter → Prop
  | nil : Paired halves []
  | single {item : letter} {rest : List letter} :
      halves.IsSingle item → Paired halves rest → Paired halves (item :: rest)
  | pair {first half : letter} {rest : List letter} :
      halves.second first = some half → Paired halves rest →
        Paired halves (first :: half :: rest)

/-- A first half at this place has its second half behind it. -/
def FollowedAt (halves : Halves letter) (items : List letter) (place : Nat) : Prop :=
  ∀ first half,
    items[place]? = some first → halves.second first = some half →
      items[place + 1]? = some half

/-- Each first half has its second half behind it. -/
def Followed (halves : Halves letter) (items : List letter) : Prop :=
  ∀ place, FollowedAt halves items place

/-- Each second half has its first half in front of it. -/
def Preceded (halves : Halves letter) (items : List letter) : Prop :=
  ∀ place first half,
    items[place]? = some half → halves.second first = some half →
      ∃ before, place = before + 1 ∧ items[before]? = some first

variable {halves : Halves letter} {items others : List letter}

/-! ## Paired lists -/

namespace Paired

theorem append
    (paired : Paired halves items)
    (pairedOthers : Paired halves others) :
    Paired halves (items ++ others) := by
  induction paired with
  | nil =>
      exact pairedOthers
  | single isSingle _ inductionHypothesis =>
      exact .single isSingle inductionHypothesis
  | pair belongs _ inductionHypothesis =>
      exact .pair belongs inductionHypothesis

/-- A paired list may be cut where no second half stands behind the cut. -/
theorem split
    (paired : Paired halves (items ++ others))
    (atBoundary : ∀ item ∈ others.head?, ¬ halves.IsSecond item) :
    Paired halves items ∧ Paired halves others := by
  generalize whole : items ++ others = list at paired
  induction paired generalizing items with
  | nil =>
      obtain ⟨rfl, rfl⟩ := List.append_eq_nil_iff.mp whole
      exact ⟨.nil, .nil⟩
  | single isSingle rest inductionHypothesis =>
      cases items with
      | nil =>
          rw [List.nil_append] at whole
          subst whole
          exact ⟨.nil, .single isSingle rest⟩
      | cons head tail =>
          rw [List.cons_append, List.cons.injEq] at whole
          obtain ⟨rfl, tailEq⟩ := whole
          obtain ⟨pairedTail, pairedOthers⟩ := inductionHypothesis tailEq
          exact ⟨.single isSingle pairedTail, pairedOthers⟩
  | pair belongs rest inductionHypothesis =>
      cases items with
      | nil =>
          rw [List.nil_append] at whole
          subst whole
          exact ⟨.nil, .pair belongs rest⟩
      | cons head tail =>
          rw [List.cons_append, List.cons.injEq] at whole
          obtain ⟨rfl, tailEq⟩ := whole
          cases tail with
          | nil =>
              -- the cut would run through a pair
              rw [List.nil_append] at tailEq
              subst tailEq
              exact absurd ⟨head, belongs⟩ (atBoundary _ rfl)
          | cons next tail =>
              rw [List.cons_append, List.cons.injEq] at tailEq
              obtain ⟨rfl, tailEq⟩ := tailEq
              obtain ⟨pairedTail, pairedOthers⟩ := inductionHypothesis tailEq
              exact ⟨.pair belongs pairedTail, pairedOthers⟩

/-- Behind a first half comes its second half. -/
theorem of_first
    {first half : letter}
    (belongs : halves.second first = some half)
    (paired : Paired halves (first :: items)) :
    ∃ rest, items = half :: rest ∧ Paired halves rest := by
  cases paired with
  | single isSingle _ =>
      rw [isSingle.1] at belongs
      cases belongs
  | pair belongsToo rest =>
      rw [belongs] at belongsToo
      cases belongsToo
      exact ⟨_, rfl, rest⟩

theorem of_single
    {item : letter}
    (isSingle : halves.IsSingle item)
    (paired : Paired halves (item :: items)) :
    Paired halves items := by
  cases paired with
  | single _ rest =>
      exact rest
  | pair belongs _ =>
      rw [isSingle.1] at belongs
      cases belongs

/-- A list with nothing but single letters. -/
theorem of_forall_single
    (singles : ∀ item ∈ items, halves.IsSingle item) :
    Paired halves items := by
  induction items with
  | nil =>
      exact .nil
  | cons item rest inductionHypothesis =>
      refine .single (singles item List.mem_cons_self) (inductionHypothesis ?_)
      intro other member
      exact singles other (List.mem_cons_of_mem item member)

/-- Replacing single letters by single letters. -/
theorem map
    {replace : letter → letter}
    (keepsSingle : ∀ item, halves.IsSingle item → halves.IsSingle (replace item))
    (fixesOther : ∀ item, ¬ halves.IsSingle item → replace item = item)
    (paired : Paired halves items) :
    Paired halves (items.map replace) := by
  induction paired with
  | nil =>
      exact .nil
  | single isSingle _ inductionHypothesis =>
      exact .single (keepsSingle _ isSingle) inductionHypothesis
  | @pair first half rest belongs _ inductionHypothesis =>
      have fixedFirst : replace first = first := by
        apply fixesOther
        intro isSingle
        rw [isSingle.1] at belongs
        cases belongs
      have fixedHalf : replace half = half :=
        fixesOther half fun isSingle => isSingle.2 ⟨first, belongs⟩
      rw [List.map_cons, List.map_cons, fixedFirst, fixedHalf]
      exact .pair belongs inductionHypothesis

theorem followed
    (paired : Paired halves items) :
    Followed halves items := by
  induction paired with
  | nil =>
      intro place first half atPlace
      cases atPlace
  | single isSingle _ inductionHypothesis =>
      intro place first half atPlace belongs
      cases place with
      | zero =>
          cases atPlace
          rw [isSingle.1] at belongs
          cases belongs
      | succ place =>
          exact inductionHypothesis place first half atPlace belongs
  | pair belongsHere _ inductionHypothesis =>
      intro place first half atPlace belongs
      match place with
      | 0 =>
          cases atPlace
          rw [belongsHere] at belongs
          exact belongs
      | 1 =>
          cases atPlace
          rw [halves.disjoint belongsHere] at belongs
          cases belongs
      | place + 2 =>
          exact inductionHypothesis place first half atPlace belongs

theorem preceded
    (paired : Paired halves items) :
    Preceded halves items := by
  induction paired with
  | nil =>
      intro place first half atPlace
      cases atPlace
  | single isSingle _ inductionHypothesis =>
      intro place first half atPlace belongs
      cases place with
      | zero =>
          cases atPlace
          exact absurd ⟨first, belongs⟩ isSingle.2
      | succ place =>
          obtain ⟨before, rfl, atBefore⟩ :=
            inductionHypothesis place first half atPlace belongs
          exact ⟨before + 1, rfl, atBefore⟩
  | pair belongsHere _ inductionHypothesis =>
      intro place first half atPlace belongs
      match place with
      | 0 =>
          cases atPlace
          rw [halves.disjoint belongs] at belongsHere
          cases belongsHere
      | 1 =>
          cases atPlace
          rw [halves.injective belongs belongsHere]
          exact ⟨0, rfl, rfl⟩
      | place + 2 =>
          obtain ⟨before, rfl, atBefore⟩ :=
            inductionHypothesis place first half atPlace belongs
          exact ⟨before + 2, rfl, atBefore⟩

end Paired

/-! ## Overwriting letters -/

/-- A first half in front of the place gives way to the filler. -/
def clearBefore (halves : Halves letter) (filler : letter) (items : List letter) :
    Nat → List letter
  | 0 => items
  | before + 1 =>
      if (items[before]?.bind halves.second).isSome then
        items.set before filler
      else
        items

section Overwriting

variable {filler : letter}

/-- Away from the letter in front of the place nothing is cleared. -/
theorem clearBefore_getElem?
    {place other : Nat}
    (elsewhere : other + 1 ≠ place) :
    (clearBefore halves filler items place)[other]? = items[other]? := by
  cases place with
  | zero =>
      rfl
  | succ before =>
      rw [clearBefore]
      split
      · exact List.getElem?_set_ne (by omega)
      · rfl

/-- In front of the place no first half is left. -/
theorem clearBefore_before
    {before : Nat} {item : letter}
    (fillerFirst : halves.second filler = none)
    (atBefore : (clearBefore halves filler items (before + 1))[before]? = some item) :
    halves.second item = none := by
  rw [clearBefore] at atBefore
  split at atBefore
  · rename_i isFirst
    rw [List.getElem?_set] at atBefore
    by_cases inside : before < items.length
    · simp only [if_true, inside] at atBefore
      cases atBefore
      exact fillerFirst
    · simp [inside] at atBefore
  · rename_i notFirst
    simpa [atBefore] using notFirst

/-- A letter that is no first half stays. -/
theorem clearBefore_of_not_first
    {before : Nat} {item : letter}
    (atBefore : items[before]? = some item)
    (notFirst : halves.second item = none) :
    clearBefore halves filler items (before + 1) = items := by
  rw [clearBefore, atBefore, Option.bind_some, notFirst]
  rfl

/-- Letters are written from a place on, such that the new list is in order
there; clearing the letter in front puts all of it in order. -/
theorem Followed.of_written
    {written : List letter} {place : Nat}
    (fillerFirst : halves.second filler = none)
    (followed : Followed halves items)
    (same : ∀ other < place, written[other]? = items[other]?)
    (later : ∀ other, place ≤ other → FollowedAt halves written other) :
    Followed halves (clearBefore halves filler written place) := by
  intro other first half atOther belongs
  by_cases isBefore : other + 1 = place
  · subst isBefore
    rw [clearBefore_before fillerFirst atOther] at belongs
    cases belongs
  · rw [clearBefore_getElem? isBefore] at atOther
    by_cases behind : place ≤ other
    · rw [clearBefore_getElem? (by omega)]
      exact later other behind first half atOther belongs
    · rw [same other (by omega)] at atOther
      have after := followed other first half atOther belongs
      rw [← same (other + 1) (by omega)] at after
      by_cases nextBefore : other + 1 + 1 = place
      · -- the letter that might be cleared is this second half
        subst nextBefore
        rw [clearBefore_of_not_first after (halves.disjoint belongs)]
        exact after
      · rw [clearBefore_getElem? nextBefore]
        exact after

/-- Writing one letter that is no first half. -/
theorem Followed.overwrite
    {place : Nat} {item : letter}
    (fillerFirst : halves.second filler = none)
    (itemFirst : halves.second item = none)
    (followed : Followed halves items) :
    Followed halves (clearBefore halves filler (items.set place item) place) := by
  apply followed.of_written fillerFirst
  · intro other before
    exact List.getElem?_set_ne (by omega)
  · intro other behind first half atOther belongs
    by_cases isPlace : place = other
    · subst isPlace
      have isItem : first = item := by
        rw [List.getElem?_set_self'] at atOther
        cases old : items[place]? <;> simp_all
      rw [isItem, itemFirst] at belongs
      cases belongs
    · rw [List.getElem?_set_ne isPlace] at atOther
      rw [List.getElem?_set_ne (by omega)]
      exact followed other first half atOther belongs

/-- Writing a whole pair. -/
theorem Followed.overwritePair
    {place : Nat} {first half : letter}
    (fillerFirst : halves.second filler = none)
    (belongs : halves.second first = some half)
    (inside : place + 1 < items.length)
    (followed : Followed halves items) :
    Followed halves
      (clearBefore halves filler ((items.set place first).set (place + 1) half) place) := by
  apply followed.of_written fillerFirst
  · intro other before
    rw [List.getElem?_set_ne (by omega), List.getElem?_set_ne (by omega)]
  · intro other behind first' half' atOther belongs'
    by_cases isPlace : place = other
    · subst isPlace
      rw [List.getElem?_set_ne (by omega), List.getElem?_set_self (by omega)] at atOther
      cases atOther
      rw [List.getElem?_set_self (by simpa using inside), ← belongs, belongs']
    · by_cases isNext : place + 1 = other
      · subst isNext
        rw [List.getElem?_set_self (by simpa using inside)] at atOther
        cases atOther
        rw [halves.disjoint belongs] at belongs'
        cases belongs'
      · rw [List.getElem?_set_ne isNext, List.getElem?_set_ne isPlace] at atOther
        rw [List.getElem?_set_ne (by omega), List.getElem?_set_ne (by omega)]
        exact followed other first' half' atOther belongs'

/-- Replacing letters by letters that are no first halves, pairs excepted. -/
theorem Followed.map
    {replace : letter → letter}
    (keepsNotFirst : ∀ item,
      halves.second item = none → halves.second (replace item) = none)
    (fixesFirst : ∀ item half,
      halves.second item = some half → replace item = item ∧ replace half = half)
    (followed : Followed halves items) :
    Followed halves (items.map replace) := by
  intro place first half atPlace belongs
  rw [List.getElem?_map, Option.map_eq_some_iff] at atPlace
  obtain ⟨old, atOld, rfl⟩ := atPlace
  cases oldBelongs : halves.second old with
  | none =>
      rw [keepsNotFirst old oldBelongs] at belongs
      cases belongs
  | some oldHalf =>
      obtain ⟨fixedFirst, fixedHalf⟩ := fixesFirst old oldHalf oldBelongs
      rw [fixedFirst, oldBelongs] at belongs
      cases belongs
      rw [List.getElem?_map, followed place old half atOld oldBelongs, Option.map_some,
        fixedHalf]

end Overwriting

end PicoJvm.Lib.Pairing
