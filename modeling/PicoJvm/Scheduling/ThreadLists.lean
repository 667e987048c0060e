import PicoJvm.Lib.CircularLists

/-!
# The scheduler's lists of threads

Threads that can run and threads that are blocked asynchronously are kept on circular lists, which
are linked through the threads themselves. Adding and removing are given on the links, and shown to
do the same to the lists.
-/

namespace PicoJvm.BlockedThreads

open PicoJvm.Lib

universe u

variable {thread : Type u}

/-- The fields `next` and `previous` of all threads. -/
structure Links (thread : Type u) where
  next : thread → Option thread
  previous : thread → Option thread

/-- A circular list under these links. -/
def Links.Circle (links : Links thread) (head : Option thread) (cells : List thread) : Prop :=
  Circular links.next links.previous head cells

/-- Only the links of some threads are changed. -/
structure Links.SameOutside (links' links : Links thread) (cells : List thread) : Prop where
  next_eq : ∀ other, other ∉ cells → links'.next other = links.next other
  previous_eq : ∀ other, other ∉ cells → links'.previous other = links.previous other

theorem Links.Circle.congr
    {links links' : Links thread} {head : Option thread} {cells changed : List thread}
    (circle : links.Circle head cells)
    (same : links'.SameOutside links changed)
    (apart : ∀ cell ∈ cells, cell ∉ changed) :
    links'.Circle head cells :=
  Circular.congr circle
    (fun cell listed => same.next_eq cell (apart cell listed))
    (fun cell listed => same.previous_eq cell (apart cell listed))

variable [DecidableEq thread]

/-! ## Searching -/

/-- The loop of `is_in_list`, from a thread on. There is no result when the links do not come back
to the head within the fuel. -/
def isInListFrom (links : Links thread) (sought last : thread) : Nat → thread → Option Bool
  | 0, _ => none
  | fuel + 1, current =>
      if current = sought then some true
      else
        (links.next current).bind fun next =>
          if next = last then some false else isInListFrom links sought last fuel next

def isInList (fuel : Nat) (links : Links thread) (sought : thread) (list : Option thread) :
    Option Bool :=
  match list with
  | none => some false
  | some head => isInListFrom links sought head fuel head

theorem isInListFrom_eq
    {links : Links thread} {sought last current : thread} {back : List thread} {fuel : Nat}
    (chain : (current :: (back ++ [last])).IsChain (Joined links.next links.previous))
    (outside : last ∉ back)
    (enough : back.length < fuel) :
    isInListFrom links sought last fuel current = some (decide (sought ∈ current :: back)) := by
  induction back generalizing current fuel with
  | nil =>
      obtain ⟨fuel, rfl⟩ := Nat.exists_eq_add_one_of_ne_zero (Nat.ne_zero_of_lt enough)
      have closes : links.next current = some last := (List.isChain_cons_cons.mp chain).1.1
      rw [isInListFrom, closes, Option.bind_some, if_pos rfl]
      rcases eq_or_ne current sought with rfl | different
      · simp
      · simp [different, different.symm]
  | cons next back inductionHypothesis =>
      obtain ⟨fuel, rfl⟩ := Nat.exists_eq_add_one_of_ne_zero (Nat.ne_zero_of_lt enough)
      rw [List.cons_append, List.isChain_cons_cons] at chain
      have notLast : next ≠ last := fun same => outside (same ▸ List.mem_cons_self)
      have rest := inductionHypothesis chain.2 (List.not_mem_of_not_mem_cons outside)
        (Nat.lt_of_succ_lt_succ enough)
      rw [isInListFrom, chain.1.1, Option.bind_some, if_neg notLast, rest]
      rcases eq_or_ne current sought with rfl | different
      · simp
      · simp [different, different.symm]

theorem isInList_eq
    {links : Links thread} {head : Option thread} {cells : List thread} {fuel : Nat}
    (circle : links.Circle head cells)
    (enough : cells.length ≤ fuel)
    (sought : thread) :
    isInList fuel links sought head = some (decide (sought ∈ cells)) := by
  cases cells with
  | nil =>
      rw [show head = none from circle.head_eq]
      simp [isInList]
  | cons first rest =>
      rw [show head = some first from circle.head_eq]
      exact isInListFrom_eq (Cycle.chain_coe_cons _ first rest |>.mp circle.joined)
        (List.nodup_cons.mp circle.nodup).1 enough

/-- More fuel does not change the answer. -/
theorem isInListFrom_mono
    {links : Links thread} {sought last current : thread} {fuel more : Nat} {answer : Bool}
    (answered : isInListFrom links sought last fuel current = some answer)
    (enough : fuel ≤ more) :
    isInListFrom links sought last more current = some answer := by
  induction fuel generalizing more current with
  | zero =>
      simp [isInListFrom] at answered
  | succ fuel inductionHypothesis =>
      obtain ⟨more, rfl⟩ := Nat.exists_eq_add_one_of_ne_zero (Nat.ne_zero_of_lt enough)
      rw [isInListFrom] at answered ⊢
      by_cases found : current = sought
      · rwa [if_pos found] at answered ⊢
      · rw [if_neg found] at answered ⊢
        cases behind : links.next current with
        | none =>
            simp [behind] at answered
        | some next =>
            rw [behind, Option.bind_some] at answered
            rw [Option.bind_some]
            by_cases isLast : next = last
            · rwa [if_pos isLast] at answered ⊢
            · rw [if_neg isLast] at answered ⊢
              exact inductionHypothesis answered (Nat.le_of_succ_le_succ enough)

theorem isInList_mono
    {links : Links thread} {sought : thread} {list : Option thread} {fuel more : Nat}
    {answer : Bool}
    (answered : isInList fuel links sought list = some answer)
    (enough : fuel ≤ more) :
    isInList more links sought list = some answer := by
  cases list with
  | none =>
      exact answered
  | some head =>
      exact isInListFrom_mono answered enough

/-! ## Adding -/

/-- `add_to_list`. There is no result when the head has no `previous`. -/
def addToList (links : Links thread) (listHead : Option thread) (added : thread) :
    Option (Links thread × Option thread) :=
  match listHead with
  | none =>
      some
        ({ next := Function.update links.next added (some added)
           previous := Function.update links.previous added (some added) }, some added)
  | some head =>
      (links.previous head).map fun prev =>
        ({ next := Function.update (Function.update links.next prev (some added)) added (some head)
           previous :=
            Function.update (Function.update links.previous added (some prev)) head (some added) },
          some head)

theorem addToList_circle
    {links : Links thread} {head : Option thread} {cells : List thread} {added : thread}
    (circle : links.Circle head cells)
    (isNew : added ∉ cells) :
    ∃ links', addToList links head added = some (links', (cells ++ [added]).head?) ∧
      links'.Circle (cells ++ [added]).head? (cells ++ [added]) ∧
      links'.SameOutside links (added :: cells) := by
  rcases List.eq_nil_or_concat' cells with rfl | ⟨front, last, rfl⟩
  · rw [show head = none from circle.head_eq]
    refine ⟨_, rfl, circular_singleton ?_ ?_, ?_, ?_⟩
    · exact Function.update_self added _ links.next
    · exact Function.update_self added _ links.previous
    · intro other outside
      exact Function.update_of_ne (List.ne_of_not_mem_cons outside) _ links.next
    · intro other outside
      exact Function.update_of_ne (List.ne_of_not_mem_cons outside) _ links.previous
  · obtain ⟨first, isFirst⟩ := Option.isSome_iff_exists.mp
      (List.isSome_head?.mpr (List.append_ne_nil_of_right_ne_nil front (List.cons_ne_nil last [])))
    have headIs : head = some first := circle.head_eq.trans isFirst
    subst headIs
    have headStays : (front ++ [last] ++ [added]).head? = some first := by
      rw [List.head?_append, isFirst, Option.some_or]
    have firstListed : first ∈ front ++ [last] := List.mem_of_mem_head? isFirst
    have lastListed : last ∈ front ++ [last] := List.mem_append_right front List.mem_cons_self
    have distinct := circle.nodup
    have addedNeFirst : added ≠ first := fun same => isNew (same ▸ firstListed)
    have addedNeLast : added ≠ last := fun same => isNew (same ▸ lastListed)
    rw [headStays, addToList, Circular.previous_head circle]
    refine ⟨_, rfl, ?_, ?_, ?_⟩
    · refine Circular.append circle isNew ?_ ?_ ?_ ?_ ?_ ?_
      · simp [addedNeLast.symm]
      · simp
      · simp [addedNeFirst]
      · simp
      · intro cell listed
        have notAdded : cell ≠ added := fun same =>
          isNew (same ▸ List.mem_append_left [last] listed)
        have notLast : cell ≠ last := fun same =>
          (List.nodup_append.mp distinct).2.2 cell listed last List.mem_cons_self same
        simp [notAdded, notLast]
      · intro cell listed
        have notAdded : cell ≠ added := fun same => isNew (same ▸ List.mem_of_mem_tail listed)
        have notFirst : cell ≠ first := by
          rintro rfl
          rw [← List.cons_head?_tail isFirst] at distinct
          exact (List.nodup_cons.mp distinct).1 listed
        simp [notAdded, notFirst]
    · intro other outside
      have notAdded := List.ne_of_not_mem_cons outside
      have notLast : other ≠ last := fun same =>
        List.not_mem_of_not_mem_cons outside (same ▸ lastListed)
      simp [notAdded, notLast]
    · intro other outside
      have notAdded := List.ne_of_not_mem_cons outside
      have notFirst : other ≠ first := fun same =>
        List.not_mem_of_not_mem_cons outside (same ▸ firstListed)
      simp [notAdded, notFirst]

/-! ## Removing -/

/-- The neighbours of a thread are linked to each other, and its own links are cleared. -/
def Links.bypass (links : Links thread) (removed next previous : thread) : Links thread where
  next := Function.update (Function.update links.next previous (some next)) removed none
  previous := Function.update (Function.update links.previous next (some previous)) removed none

/-- `remove_from_list`. There is no result when the thread has no neighbours. -/
def removeFromList (links : Links thread) (list : Option thread) (removed : thread) :
    Option (Links thread × Option thread) :=
  (links.next removed).bind fun next =>
    (links.previous removed).map fun previous =>
      let list' :=
        if list = some removed then
          -- the last thread of the list, or the head of a longer one
          if some next = list then none else some next
        else
          list
      (links.bypass removed next previous, list')

/-- Removing from a list that is read from the removed thread. -/
theorem removeFromList_first
    {links : Links thread} {removed : thread} {rest : List thread}
    (circle : links.Circle (some removed) (removed :: rest)) :
    ∃ links', removeFromList links (some removed) removed = some (links', rest.head?) ∧
      links'.Circle rest.head? rest ∧
      links'.SameOutside links (removed :: rest) ∧
      ∀ list, list ≠ some removed → removeFromList links list removed = some (links', list) := by
  rcases List.eq_nil_or_concat' rest with rfl | ⟨front, last, rfl⟩
  · have isAlone := (Cycle.chain_singleton _ removed).mp circle.joined
    rw [removeFromList, isAlone.1, isAlone.2]
    refine ⟨links.bypass removed removed removed, ?_, circular_none_iff.mpr rfl, ⟨?_, ?_⟩, ?_⟩
    · simp
    · intro other outside
      simp [Links.bypass, List.ne_of_not_mem_cons outside]
    · intro other outside
      simp [Links.bypass, List.ne_of_not_mem_cons outside]
    · intro list different
      simp [removeFromList, isAlone.1, isAlone.2, different]
  · obtain ⟨first, isFirst⟩ := Option.isSome_iff_exists.mp
      (List.isSome_head?.mpr (List.append_ne_nil_of_right_ne_nil front (List.cons_ne_nil last [])))
    have ⟨removedOutside, distinct⟩ := List.nodup_cons.mp circle.nodup
    have firstListed : first ∈ front ++ [last] := List.mem_of_mem_head? isFirst
    have lastListed : last ∈ front ++ [last] := List.mem_append_right front List.mem_cons_self
    have removedNeFirst : removed ≠ first := fun same => removedOutside (same ▸ firstListed)
    have removedNeLast : removed ≠ last := fun same => removedOutside (same ▸ lastListed)
    have ⟨ahead, behind, _⟩ := Circular.neighbours circle isFirst
    rw [isFirst, removeFromList, ahead.1, behind.2]
    refine ⟨links.bypass removed first last, ?_, ?_, ⟨?_, ?_⟩, ?_⟩
    · simp [removedNeFirst.symm]
    · refine Circular.unlinkHead circle isFirst ?_ ?_ ?_ ?_
      · simp [Links.bypass, removedNeLast.symm]
      · simp [Links.bypass, removedNeFirst.symm]
      · intro cell listed
        have notRemoved : cell ≠ removed := fun same =>
          removedOutside (same ▸ List.mem_append_left [last] listed)
        have notLast : cell ≠ last := fun same =>
          (List.nodup_append.mp distinct).2.2 cell listed last List.mem_cons_self same
        simp [Links.bypass, notRemoved, notLast]
      · intro cell listed
        have notRemoved : cell ≠ removed := fun same =>
          removedOutside (same ▸ List.mem_of_mem_tail listed)
        have notFirst : cell ≠ first := by
          rintro rfl
          rw [← List.cons_head?_tail isFirst] at distinct
          exact (List.nodup_cons.mp distinct).1 listed
        simp [Links.bypass, notRemoved, notFirst]
    · intro other outside
      have notRemoved := List.ne_of_not_mem_cons outside
      have notLast : other ≠ last := fun same =>
        List.not_mem_of_not_mem_cons outside (same ▸ lastListed)
      simp [Links.bypass, notRemoved, notLast]
    · intro other outside
      have notRemoved := List.ne_of_not_mem_cons outside
      have notFirst : other ≠ first := fun same =>
        List.not_mem_of_not_mem_cons outside (same ▸ firstListed)
      simp [Links.bypass, notRemoved, notFirst]
    · intro list different
      simp [removeFromList, ahead.1, behind.2, different]

theorem removeFromList_circle
    {links : Links thread} {head : Option thread} {cells : List thread} {removed : thread}
    (circle : links.Circle head cells)
    (listed : removed ∈ cells) :
    ∃ links', removeFromList links head removed = some (links', (cells.erase removed).head?) ∧
      links'.Circle (cells.erase removed).head? (cells.erase removed) ∧
      links'.SameOutside links cells := by
  obtain ⟨front, back, rfl⟩ := List.append_of_mem listed
  have distinct := circle.nodup
  have notBefore : removed ∉ front := fun before =>
    (List.nodup_append.mp distinct).2.2 removed before removed List.mem_cons_self rfl
  have erased : (front ++ removed :: back).erase removed = front ++ back := by
    rw [List.erase_append_right _ notBefore, List.erase_cons_head]
  rw [erased]
  have fromRemoved := Circular.rotate circle
  obtain ⟨links', fromHead, circle', same, otherwise⟩ := removeFromList_first fromRemoved
  refine ⟨links', ?_, Circular.rotate circle', ?_⟩
  · cases front with
    | nil =>
        rw [show head = some removed from circle.head_eq]
        simpa using fromHead
    | cons first front =>
        have notFirst : some first ≠ some removed := fun equal =>
          notBefore (Option.some.inj equal ▸ List.mem_cons_self)
        rw [show head = some first from circle.head_eq]
        exact otherwise (some first) notFirst
  · have sameCells : ∀ other, other ∉ front ++ removed :: back →
        other ∉ removed :: (back ++ front) := by
      intro other outside listed
      apply outside
      simp only [List.mem_append, List.mem_cons] at listed ⊢
      tauto
    exact ⟨fun other outside => same.next_eq other (sameCells other outside),
      fun other outside => same.previous_eq other (sameCells other outside)⟩

/-! ## Several lists -/

/-- Circular lists that have no thread in common. -/
structure Circles {index : Type*} (links : Links thread) (heads : index → Option thread)
    (cells : index → List thread) : Prop where
  circle : ∀ list, links.Circle (heads list) (cells list)
  apart : ∀ list other, list ≠ other → ∀ cell ∈ cells list, cell ∉ cells other

section Circles

variable {index : Type*} [DecidableEq index] {links links' : Links thread}
  {heads : index → Option thread} {cells : index → List thread}

omit [DecidableEq thread] in
/-- One list is exchanged for one whose threads were on no other list. -/
theorem Circles.exchange
    {list : index} {head : Option thread} {exchanged changed : List thread}
    (circles : Circles links heads cells)
    (circle : links'.Circle head exchanged)
    (same : links'.SameOutside links changed)
    (exchangedFree : ∀ other ≠ list, ∀ cell ∈ exchanged, cell ∉ cells other)
    (changedFree : ∀ other ≠ list, ∀ cell ∈ changed, cell ∉ cells other) :
    Circles links' (Function.update heads list head) (Function.update cells list exchanged) := by
  constructor
  · intro other
    rcases eq_or_ne other list with rfl | different
    · rw [Function.update_self, Function.update_self]
      exact circle
    · rw [Function.update_of_ne different, Function.update_of_ne different]
      exact (circles.circle other).congr same
        (fun cell listed isChanged => changedFree other different cell isChanged listed)
  · intro first second different cell listed
    rcases eq_or_ne first list with rfl | notFirst
    · rw [Function.update_self] at listed
      rw [Function.update_of_ne different.symm]
      exact exchangedFree second different.symm cell listed
    · rw [Function.update_of_ne notFirst] at listed
      rcases eq_or_ne second list with rfl | notSecond
      · rw [Function.update_self]
        exact fun isExchanged => exchangedFree first notFirst cell isExchanged listed
      · rw [Function.update_of_ne notSecond]
        exact circles.apart first second different cell listed

theorem Circles.add
    {added : thread}
    (circles : Circles links heads cells)
    (list : index)
    (isNew : ∀ other, added ∉ cells other) :
    ∃ links', addToList links (heads list) added =
        some (links', (cells list ++ [added]).head?) ∧
      Circles links' (Function.update heads list (cells list ++ [added]).head?)
        (Function.update cells list (cells list ++ [added])) := by
  obtain ⟨links', isAdded, circle, same⟩ := addToList_circle (circles.circle list) (isNew list)
  refine ⟨links', isAdded, circles.exchange circle same ?_ ?_⟩
  · intro other different cell listed
    rcases List.mem_append.mp listed with before | isAdded
    · exact circles.apart list other different.symm cell before
    · exact List.mem_singleton.mp isAdded ▸ isNew other
  · intro other different cell listed
    rcases List.mem_cons.mp listed with rfl | before
    · exact isNew other
    · exact circles.apart list other different.symm cell before

theorem Circles.remove
    {list : index} {removed : thread}
    (circles : Circles links heads cells)
    (listed : removed ∈ cells list) :
    ∃ links', removeFromList links (heads list) removed =
        some (links', ((cells list).erase removed).head?) ∧
      Circles links' (Function.update heads list ((cells list).erase removed).head?)
        (Function.update cells list ((cells list).erase removed)) := by
  obtain ⟨links', isRemoved, circle, same⟩ := removeFromList_circle (circles.circle list) listed
  refine ⟨links', isRemoved, circles.exchange circle same ?_ ?_⟩
  · intro other different cell isCell
    exact circles.apart list other different.symm cell (List.mem_of_mem_erase isCell)
  · intro other different cell isCell
    exact circles.apart list other different.symm cell isCell

end Circles

end PicoJvm.BlockedThreads
