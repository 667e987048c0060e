import Mathlib.Data.List.Forall2

/-!
# Chains of linked cells

Cells that refer to the next one, in a store that is changed in place. A chain is described by the
list of its cells.
-/

namespace PicoJvm.Lib

universe u

section Chains

variable {ref : Type u} {next next' : ref → Option ref}

/-- `Linked next start cells`: from `start` the links lead through `cells`, and end there. -/
def Linked (next : ref → Option ref) : Option ref → List ref → Prop
  | start, [] => start = none
  | start, cell :: cells => start = some cell ∧ Linked next (next cell) cells

theorem linked_none_iff {cells : List ref} : Linked next none cells ↔ cells = [] := by
  cases cells <;> simp [Linked]

theorem linked_some_iff {cell : ref} {cells : List ref} :
    Linked next (some cell) cells ↔ ∃ rest, cells = cell :: rest ∧ Linked next (next cell) rest := by
  cases cells with
  | nil =>
      simp [Linked]
  | cons first rest =>
      simp only [Linked, Option.some.injEq, List.cons.injEq]
      constructor
      · rintro ⟨rfl, linked⟩
        exact ⟨rest, ⟨rfl, rfl⟩, linked⟩
      · rintro ⟨_, ⟨rfl, rfl⟩, linked⟩
        exact ⟨rfl, linked⟩

/-- A chain stays when the links of its cells do. -/
theorem Linked.congr
    {start : Option ref} {cells : List ref}
    (linked : Linked next start cells)
    (agree : ∀ cell ∈ cells, next' cell = next cell) :
    Linked next' start cells := by
  induction cells generalizing start with
  | nil =>
      exact linked
  | cons cell cells inductionHypothesis =>
      obtain ⟨first, agree⟩ := List.forall_mem_cons.mp agree
      refine ⟨linked.1, ?_⟩
      rw [first]
      exact inductionHypothesis linked.2 agree

/-- The links determine the cells. -/
theorem Linked.unique
    {start : Option ref} {cells cells' : List ref}
    (linked : Linked next start cells)
    (linked' : Linked next start cells') :
    cells = cells' := by
  induction cells generalizing start cells' with
  | nil =>
      rw [show start = none from linked] at linked'
      exact (linked_none_iff.1 linked').symm
  | cons cell cells inductionHypothesis =>
      rw [linked.1] at linked'
      obtain ⟨rest, rfl, linked''⟩ := linked_some_iff.1 linked'
      rw [inductionHypothesis linked.2 linked'']

/-- A new cell in front. -/
theorem Linked.push
    {start : Option ref} {cell : ref} {cells : List ref}
    (linked : Linked next start cells)
    (front : next' cell = start)
    (agree : ∀ other ∈ cells, next' other = next other) :
    Linked next' (some cell) (cell :: cells) := by
  refine ⟨rfl, ?_⟩
  rw [front]
  exact linked.congr agree

theorem Linked.behind
    {start : Option ref} {cell : ref} {front rest : List ref}
    (linked : Linked next start (front ++ cell :: rest)) :
    Linked next (next cell) rest := by
  induction front generalizing start with
  | nil =>
      exact linked.2
  | cons first front inductionHypothesis =>
      exact inductionHypothesis linked.2

/-- A cell is taken out by linking the one in front of it to the one behind it. -/
theorem Linked.unlink
    {start : Option ref} {previous cell : ref} {front rest : List ref}
    (linked : Linked next start (front ++ previous :: cell :: rest))
    (skips : next' previous = next cell)
    (agree : ∀ other ∈ front ++ rest, next' other = next other) :
    Linked next' start (front ++ previous :: rest) := by
  induction front generalizing start with
  | nil =>
      refine ⟨linked.1, ?_⟩
      rw [skips]
      exact linked.2.2.congr agree
  | cons first front inductionHypothesis =>
      rw [List.cons_append] at agree
      obtain ⟨sameFirst, agree⟩ := List.forall_mem_cons.mp agree
      refine ⟨linked.1, ?_⟩
      rw [sameFirst]
      exact inductionHypothesis linked.2 agree

/-! ## Searching -/

/-- The loop over a chain that stops at the first accepted cell. There is no result when the fuel
does not last. -/
def searchChain (next : ref → Option ref) (accepts : ref → Bool) :
    Nat → Option ref → Option (Option ref)
  | 0, _ => none
  | _ + 1, none => some none
  | fuel + 1, some cell =>
      if accepts cell then some (some cell) else searchChain next accepts fuel (next cell)

theorem searchChain_eq
    {accepts : ref → Bool} {start : Option ref} {cells : List ref} {fuel : Nat}
    (linked : Linked next start cells)
    (enough : cells.length < fuel) :
    searchChain next accepts fuel start = some (cells.find? accepts) := by
  induction cells generalizing start fuel with
  | nil =>
      obtain ⟨fuel, rfl⟩ := Nat.exists_eq_add_one_of_ne_zero (Nat.ne_zero_of_lt enough)
      rw [show start = none from linked]
      rfl
  | cons cell cells inductionHypothesis =>
      obtain ⟨fuel, rfl⟩ := Nat.exists_eq_add_one_of_ne_zero (Nat.ne_zero_of_lt enough)
      rw [List.length_cons, Nat.add_lt_add_iff_right] at enough
      obtain ⟨rfl, linked⟩ := linked
      rw [searchChain, List.find?_cons, inductionHypothesis linked enough]
      cases accepts cell <;> rfl

/-- The same loop with the cell in front of the accepted one. -/
def searchWithPrevious (next : ref → Option ref) (accepts : ref → Bool) :
    Nat → Option ref → Option ref → Option (Option (Option ref × ref))
  | 0, _, _ => none
  | _ + 1, _, none => some none
  | fuel + 1, previous, some cell =>
      if accepts cell then some (some (previous, cell))
      else searchWithPrevious next accepts fuel (some cell) (next cell)

/-- What the loop comes to, behind a cell that has been passed. -/
theorem searchWithPrevious_eq
    {start : Option ref} {cells : List ref} {fuel : Nat}
    (linked : Linked next start cells)
    (enough : cells.length < fuel)
    (accepts : ref → Bool)
    (previous : Option ref) :
    searchWithPrevious next accepts fuel previous start = some none ∧
        (∀ cell ∈ cells, accepts cell = false) ∨
      ∃ front cell rest, cells = front ++ cell :: rest ∧ accepts cell = true ∧
        searchWithPrevious next accepts fuel previous start =
          some (some (front.getLast?.or previous, cell)) := by
  induction cells generalizing start previous fuel with
  | nil =>
      obtain ⟨fuel, rfl⟩ := Nat.exists_eq_add_one_of_ne_zero (Nat.ne_zero_of_lt enough)
      rw [show start = none from linked]
      exact Or.inl ⟨rfl, fun _ impossible => absurd impossible List.not_mem_nil⟩
  | cons cell cells inductionHypothesis =>
      obtain ⟨fuel, rfl⟩ := Nat.exists_eq_add_one_of_ne_zero (Nat.ne_zero_of_lt enough)
      rw [List.length_cons, Nat.add_lt_add_iff_right] at enough
      obtain ⟨rfl, linked⟩ := linked
      rw [searchWithPrevious]
      cases accepted : accepts cell with
      | true =>
          exact Or.inr ⟨[], cell, cells, rfl, accepted, rfl⟩
      | false =>
          rcases inductionHypothesis linked enough (some cell) with
            ⟨ended, others⟩ | ⟨front, found, rest, rfl, isAccepted, stopped⟩
          · exact Or.inl ⟨ended, List.forall_mem_cons.mpr ⟨accepted, others⟩⟩
          · refine Or.inr ⟨cell :: front, found, rest, rfl, isAccepted, stopped.trans ?_⟩
            rw [List.getLast?_cons]
            cases front.getLast? <;> rfl

/-- More fuel does not change the result. -/
theorem searchWithPrevious_mono
    {accepts : ref → Bool} {fuel more : Nat} {previous start : Option ref}
    {result : Option (Option ref × ref)}
    (searched : searchWithPrevious next accepts fuel previous start = some result)
    (enough : fuel ≤ more) :
    searchWithPrevious next accepts more previous start = some result := by
  induction fuel generalizing more previous start with
  | zero =>
      simp [searchWithPrevious] at searched
  | succ fuel inductionHypothesis =>
      obtain ⟨more, rfl⟩ := Nat.exists_eq_add_one_of_ne_zero (Nat.ne_zero_of_lt enough)
      cases start with
      | none =>
          exact searched
      | some cell =>
          rw [searchWithPrevious] at searched ⊢
          cases accepted : accepts cell with
          | true =>
              rwa [accepted] at searched
          | false =>
              rw [accepted] at searched
              exact inductionHypothesis searched (Nat.le_of_succ_le_succ enough)

/-! ## Tables of chains -/

/-- Chains from the heads in a table. -/
def LinkedAll (next : ref → Option ref) (heads : List (Option ref)) (chains : List (List ref)) :
    Prop :=
  List.Forall₂ (Linked next) heads chains

theorem LinkedAll.chain_at
    {heads : List (Option ref)} {chains : List (List ref)} {index : Nat}
    (linked : LinkedAll next heads chains)
    (inside : index < heads.length) :
    ∃ cells, chains[index]? = some cells ∧ Linked next (heads.getD index none) cells := by
  have sameLength := List.Forall₂.length_eq linked
  have inside' : index < chains.length := sameLength ▸ inside
  refine ⟨chains[index], List.getElem?_eq_getElem inside', ?_⟩
  rw [List.getD_eq_getElem?_getD, List.getElem?_eq_getElem inside, Option.getD_some]
  exact List.Forall₂.get linked inside inside'

/-- All chains stay when the links of their cells do. -/
theorem LinkedAll.congr
    {heads : List (Option ref)} {chains : List (List ref)}
    (linked : LinkedAll next heads chains)
    (agree : ∀ cells ∈ chains, ∀ cell ∈ cells, next' cell = next cell) :
    LinkedAll next' heads chains := by
  induction linked with
  | nil =>
      exact .nil
  | cons first rest inductionHypothesis =>
      obtain ⟨agreeFirst, agreeRest⟩ := List.forall_mem_cons.mp agree
      exact .cons (first.congr agreeFirst) (inductionHypothesis agreeRest)

/-- One chain is exchanged, and the links of the others stay. -/
theorem LinkedAll.exchange
    {heads : List (Option ref)} {chains : List (List ref)} {index : Nat}
    {head : Option ref} {cells : List ref}
    (linked : LinkedAll next heads chains)
    (exchanged : Linked next' head cells)
    (agree : ∀ other cells', other ≠ index → chains[other]? = some cells' →
      ∀ cell ∈ cells', next' cell = next cell) :
    LinkedAll next' (heads.set index head) (chains.set index cells) := by
  induction linked generalizing index with
  | nil =>
      exact .nil
  | cons first rest inductionHypothesis =>
      cases index with
      | zero =>
          refine .cons exchanged (LinkedAll.congr rest ?_)
          intro cells' listed
          obtain ⟨other, isListed⟩ := List.getElem?_of_mem listed
          exact agree (other + 1) cells' (Nat.succ_ne_zero other) isListed
      | succ index =>
          refine .cons ?_ ?_
          · exact first.congr (agree 0 _ (Nat.succ_ne_zero index).symm rfl)
          · apply inductionHypothesis
            intro other cells' different listed
            exact agree (other + 1) cells' (fun same => different (Nat.succ.inj same)) listed

/-- The cells of a table around one of its chains. -/
theorem flatten_around
    {chains : List (List ref)} {index : Nat} {cells : List ref}
    (listed : chains[index]? = some cells) :
    ∃ before after, chains.flatten = before ++ cells ++ after ∧
      ∀ cells', (chains.set index cells').flatten = before ++ cells' ++ after := by
  obtain ⟨inside, isListed⟩ := List.getElem?_eq_some_iff.mp listed
  refine ⟨(chains.take index).flatten, (chains.drop (index + 1)).flatten, ?_, ?_⟩
  · rw [List.append_assoc, ← isListed, ← List.flatten_cons, ← List.drop_eq_getElem_cons inside,
      ← List.flatten_append, List.take_append_drop]
  · intro cells'
    rw [List.set_eq_take_append_cons_drop, if_pos inside, List.flatten_append, List.flatten_cons,
      List.append_assoc]

end Chains

end PicoJvm.Lib
