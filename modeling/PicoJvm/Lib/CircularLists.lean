import Mathlib.Data.List.Cycle
import Mathlib.Logic.Function.Basic

/-!
# Circular lists of linked cells

Doubly linked lists that close up, in a store whose links are changed in place. A list is described
by its cells, read from the head.
-/

namespace PicoJvm.Lib

universe u

section CircularLists

variable {ref : Type u} {next previous next' previous' : ref → Option ref}

/-- The two links between neighbours. -/
def Joined (next previous : ref → Option ref) (left right : ref) : Prop :=
  next left = some right ∧ previous right = some left

/-- A circular list of different cells. -/
structure Circular
    (next previous : ref → Option ref)
    (head : Option ref)
    (cells : List ref) : Prop where
  head_eq : head = cells.head?
  nodup : cells.Nodup
  joined : Cycle.Chain (Joined next previous) (cells : Cycle ref)

/-- Neighbours stay joined when only the link behind the last cell and the one in front of the first
are changed. -/
theorem isChain_relink
    {cells : List ref}
    (chain : cells.IsChain (Joined next previous))
    (forward : ∀ cell ∈ cells.dropLast, next' cell = next cell)
    (backward : ∀ cell ∈ cells.tail, previous' cell = previous cell) :
    cells.IsChain (Joined next' previous') := by
  induction cells with
  | nil =>
      exact .nil
  | cons first rest inductionHypothesis =>
      cases rest with
      | nil =>
          exact .singleton first
      | cons second rest =>
          rw [List.isChain_cons_cons] at chain ⊢
          rw [List.dropLast_cons_cons] at forward
          have forwardFirst := forward first List.mem_cons_self
          have backwardSecond := backward second List.mem_cons_self
          refine ⟨⟨forwardFirst.trans chain.1.1, backwardSecond.trans chain.1.2⟩, ?_⟩
          apply inductionHypothesis chain.2
          · intro cell listed
            exact forward cell (List.mem_cons_of_mem first listed)
          · intro cell listed
            exact backward cell (List.mem_cons_of_mem second listed)

theorem circular_none_iff {cells : List ref} :
    Circular next previous none cells ↔ cells = [] := by
  constructor
  · intro circular
    exact List.head?_eq_none_iff.mp circular.head_eq.symm
  · rintro rfl
    exact ⟨rfl, List.nodup_nil, trivial⟩

/-- The links of a list with a last cell and a first one. -/
theorem chain_concat_iff {front : List ref} {last : ref} :
    Cycle.Chain (Joined next previous) ((front ++ [last] : List ref) : Cycle ref) ↔
      (front ++ [last]).IsChain (Joined next previous) ∧
        ∀ first ∈ (front ++ [last]).head?, Joined next previous last first := by
  cases front with
  | nil =>
      simp
  | cons first front =>
      rw [List.cons_append, Cycle.chain_coe_cons, ← List.cons_append, ← List.cons_append,
        List.append_assoc, List.singleton_append, List.isChain_append_cons_cons]
      simp

theorem Circular.isChain
    {head : Option ref} {cells : List ref}
    (circular : Circular next previous head cells) :
    cells.IsChain (Joined next previous) := by
  rcases List.eq_nil_or_concat' cells with rfl | ⟨front, last, rfl⟩
  · exact .nil
  · exact (chain_concat_iff.1 circular.joined).1

theorem Circular.congr
    {head : Option ref} {cells : List ref}
    (circular : Circular next previous head cells)
    (forward : ∀ cell ∈ cells, next' cell = next cell)
    (backward : ∀ cell ∈ cells, previous' cell = previous cell) :
    Circular next' previous' head cells := by
  refine ⟨circular.head_eq, circular.nodup, ?_⟩
  rcases List.eq_nil_or_concat' cells with rfl | ⟨front, last, rfl⟩
  · trivial
  · obtain ⟨chain, closing⟩ := chain_concat_iff.1 circular.joined
    refine chain_concat_iff.2 ⟨isChain_relink chain ?_ ?_, ?_⟩
    · intro cell listed
      exact forward cell (List.mem_of_mem_dropLast listed)
    · intro cell listed
      exact backward cell (List.mem_of_mem_tail listed)
    · intro first isFirst
      have isJoined := closing first isFirst
      refine ⟨(forward last ?_).trans isJoined.1, (backward first ?_).trans isJoined.2⟩
      · exact List.mem_append_right front List.mem_cons_self
      · exact List.mem_of_mem_head? isFirst

/-- In front of the head stands the last cell. -/
theorem Circular.previous_head
    {first last : ref} {front : List ref}
    (circular : Circular next previous (some first) (front ++ [last])) :
    previous first = some last :=
  ((chain_concat_iff.1 circular.joined).2 first circular.head_eq.symm).2

theorem chain_unique
    {first last : ref} {cells cells' : List ref}
    (chain : (first :: (cells ++ [last])).IsChain (Joined next previous))
    (chain' : (first :: (cells' ++ [last])).IsChain (Joined next previous))
    (outside : last ∉ cells)
    (outside' : last ∉ cells') :
    cells = cells' := by
  induction cells generalizing first cells' with
  | nil =>
      cases cells' with
      | nil =>
          rfl
      | cons second cells' =>
          have closes := (List.isChain_cons_cons.mp chain).1.1
          have goesOn := (List.isChain_cons_cons.mp chain').1.1
          have same : last = second := Option.some.inj (closes.symm.trans goesOn)
          exact absurd (same ▸ List.mem_cons_self) outside'
  | cons second cells inductionHypothesis =>
      rw [List.cons_append, List.isChain_cons_cons] at chain
      cases cells' with
      | nil =>
          have closes := (List.isChain_cons_cons.mp chain').1.1
          have same : last = second := Option.some.inj (closes.symm.trans chain.1.1)
          exact absurd (same ▸ List.mem_cons_self) outside
      | cons second' cells' =>
          rw [List.cons_append, List.isChain_cons_cons] at chain'
          have same : second = second' := Option.some.inj (chain.1.1.symm.trans chain'.1.1)
          subst same
          rw [inductionHypothesis chain.2 chain'.2 (List.not_mem_of_not_mem_cons outside)
            (List.not_mem_of_not_mem_cons outside')]

/-- The links determine the cells. -/
theorem Circular.unique
    {head : Option ref} {cells cells' : List ref}
    (circular : Circular next previous head cells)
    (circular' : Circular next previous head cells') :
    cells = cells' := by
  have sameHead := circular.head_eq.symm.trans circular'.head_eq
  cases cells with
  | nil =>
      exact (List.head?_eq_none_iff.mp sameHead.symm).symm
  | cons first cells =>
      obtain ⟨rest, rfl⟩ := List.head?_eq_some_iff.mp sameHead.symm
      rw [chain_unique ((Cycle.chain_coe_cons _ first cells).mp circular.joined)
        ((Cycle.chain_coe_cons _ first rest).mp circular'.joined)
        (List.nodup_cons.mp circular.nodup).1 (List.nodup_cons.mp circular'.nodup).1]

/-- The list read from any of its cells. -/
theorem Circular.rotate
    {head : Option ref} {front back : List ref}
    (circular : Circular next previous head (front ++ back)) :
    Circular next previous (back ++ front).head? (back ++ front) := by
  refine ⟨rfl, List.nodup_append_comm.mp circular.nodup, ?_⟩
  have rotated : (back ++ front) ~r (front ++ back) := List.isRotated_append
  rw [Cycle.coe_eq_coe.mpr rotated]
  exact circular.joined

/-- The list read from the cell behind the head. -/
theorem Circular.advance
    {first : ref} {rest : List ref}
    (circular : Circular next previous (some first) (first :: rest)) :
    Circular next previous (next first) (rest ++ [first]) := by
  have rotated := @Circular.rotate ref next previous (some first) [first] rest circular
  have chain := (Cycle.chain_coe_cons _ first rest).mp circular.joined
  rw [List.isChain_cons] at chain
  have behindFirst : next first = (rest ++ [first]).head? := by
    cases rest with
    | nil =>
        exact (chain.1 first rfl).1
    | cons second rest =>
        exact (chain.1 second rfl).1
  rw [behindFirst]
  exact rotated

/-! ## A cell is put at the end -/

theorem Circular.append
    {first last added : ref} {front : List ref}
    (circular : Circular next previous (some first) (front ++ [last]))
    (isNew : added ∉ front ++ [last])
    (behindLast : next' last = some added)
    (behindAdded : next' added = some first)
    (beforeAdded : previous' added = some last)
    (beforeFirst : previous' first = some added)
    (forward : ∀ cell ∈ front, next' cell = next cell)
    (backward : ∀ cell ∈ (front ++ [last]).tail, previous' cell = previous cell) :
    Circular next' previous' (some first) (front ++ [last] ++ [added]) := by
  have isFirst : some first = (front ++ [last] ++ [added]).head? := by
    rw [List.head?_append, ← circular.head_eq, Option.some_or]
  refine ⟨isFirst, ?_, chain_concat_iff.2 ⟨?_, ?_⟩⟩
  · exact List.nodup_append.mpr ⟨circular.nodup, List.nodup_singleton added,
      fun cell listed other isOther same => isNew
        (List.mem_singleton.mp isOther ▸ same ▸ listed)⟩
  · rw [List.append_assoc, List.singleton_append, List.isChain_append_cons_cons]
    refine ⟨?_, ⟨behindLast, beforeAdded⟩, .singleton added⟩
    refine isChain_relink (chain_concat_iff.1 circular.joined).1 ?_ backward
    rw [List.dropLast_concat]
    exact forward
  · intro cell isCell
    rw [← isFirst, Option.mem_some_iff] at isCell
    exact isCell ▸ ⟨behindAdded, beforeFirst⟩

theorem circular_singleton
    {only : ref}
    (forward : next only = some only)
    (backward : previous only = some only) :
    Circular next previous (some only) [only] :=
  ⟨rfl, List.nodup_singleton only, (Cycle.chain_singleton _ only).mpr ⟨forward, backward⟩⟩

/-! ## A cell is taken out -/

/-- The cells next to one that is read first. -/
theorem Circular.neighbours
    {removed first last : ref} {front : List ref}
    (circular : Circular next previous (some removed) (removed :: (front ++ [last])))
    (isFirst : (front ++ [last]).head? = some first) :
    Joined next previous removed first ∧ Joined next previous last removed ∧
      (front ++ [last]).IsChain (Joined next previous) := by
  have ⟨chain, closing⟩ := chain_concat_iff.1
    (show Cycle.Chain _ ((removed :: front ++ [last] : List ref) : Cycle ref) from circular.joined)
  rw [List.cons_append, List.isChain_cons] at chain
  exact ⟨chain.1 first isFirst, closing removed rfl, chain.2⟩

/-- The cells next to it are joined. -/
theorem Circular.unlinkHead
    {removed first last : ref} {front : List ref}
    (circular : Circular next previous (some removed) (removed :: (front ++ [last])))
    (isFirst : (front ++ [last]).head? = some first)
    (behindLast : next' last = some first)
    (beforeFirst : previous' first = some last)
    (forward : ∀ cell ∈ front, next' cell = next cell)
    (backward : ∀ cell ∈ (front ++ [last]).tail, previous' cell = previous cell) :
    Circular next' previous' (some first) (front ++ [last]) := by
  refine ⟨isFirst.symm, (List.nodup_cons.mp circular.nodup).2, chain_concat_iff.2 ⟨?_, ?_⟩⟩
  · refine isChain_relink (circular.neighbours isFirst).2.2 ?_ backward
    rw [List.dropLast_concat]
    exact forward
  · intro cell isCell
    rw [isFirst, Option.mem_some_iff] at isCell
    exact isCell ▸ ⟨behindLast, beforeFirst⟩

end CircularLists

end PicoJvm.Lib
