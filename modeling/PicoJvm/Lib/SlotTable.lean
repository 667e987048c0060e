import Mathlib.Data.List.Basic

/-!
# Tables of slots

A table has a fixed number of slots, each in use or not. The first free slot is taken, and
a slot is given back by its number.
-/

namespace PicoJvm.Lib.SlotTable

universe u

variable {content : Type u}

/-- What is in a slot, if that is in use. -/
def lookup (table : List (Option content)) (slot : Nat) : Option content :=
  table[slot]?.join

/-- Takes the first free slot. -/
def alloc (value : content) : List (Option content) → Option (Nat × List (Option content))
  | [] => none
  | none :: rest => some (0, some value :: rest)
  | some used :: rest =>
      (alloc value rest).map fun (slot, next) => (slot + 1, some used :: next)

/-- Fills a slot that is in use anew. -/
def store (table : List (Option content)) (slot : Nat) (value : content) :
    List (Option content) :=
  table.set slot (some value)

/-- Gives a slot back. -/
def free (table : List (Option content)) (slot : Nat) : List (Option content) :=
  table.set slot none

theorem lookup_free (table : List (Option content)) (slot place : Nat) :
    lookup (free table slot) place = if place = slot then none else lookup table place := by
  simp only [lookup, free, List.getElem?_set]
  split
  · rename_i same
    rw [if_pos same.symm]
    split <;> rfl
  · rename_i different
    rw [if_neg (Ne.symm different)]

section Alloc

variable {table next : List (Option content)} {value : content} {slot : Nat}

theorem alloc_some (value used : content) (rest : List (Option content)) :
    alloc value (some used :: rest) =
      (alloc value rest).map fun (slot, next) => (slot + 1, some used :: next) :=
  rfl

theorem alloc_eq
    (allocated : alloc value table = some (slot, next)) :
    table[slot]? = some none ∧ next = table.set slot (some value) := by
  induction table generalizing slot next with
  | nil =>
      cases allocated
  | cons head rest inductionHypothesis =>
      cases head with
      | none =>
          cases allocated
          exact ⟨rfl, rfl⟩
      | some used =>
          simp only [alloc_some, Option.map_eq_some_iff, Prod.exists, Prod.mk.injEq] at allocated
          obtain ⟨inner, next', allocated', rfl, rfl⟩ := allocated
          obtain ⟨free, same⟩ := inductionHypothesis allocated'
          exact ⟨free, by rw [same]; rfl⟩

/-- There is a slot to take as long as one is free. -/
theorem alloc_isSome_iff (value : content) (table : List (Option content)) :
    (alloc value table).isSome = true ↔ none ∈ table := by
  induction table with
  | nil =>
      exact iff_of_false Bool.false_ne_true List.not_mem_nil
  | cons head rest inductionHypothesis =>
      cases head with
      | none =>
          exact iff_of_true rfl List.mem_cons_self
      | some used =>
          simp [alloc_some, inductionHypothesis]

theorem lookup_of_alloc
    (allocated : alloc value table = some (slot, next)) :
    lookup table slot = none := by
  rw [lookup, (alloc_eq allocated).1]
  rfl

/-- An allocated slot, filled with whatever. -/
theorem lookup_store
    (allocated : alloc value table = some (slot, next)) (value' : content) (place : Nat) :
    lookup (store next slot value') place =
      if place = slot then some value' else lookup table place := by
  obtain ⟨free, same⟩ := alloc_eq allocated
  obtain ⟨inside, _⟩ := List.getElem?_eq_some_iff.mp free
  simp only [lookup, store, same, List.set_set, List.getElem?_set]
  split
  · rename_i samePlace
    rw [if_pos samePlace.symm]
    rfl
  · rename_i different
    rw [if_neg (Ne.symm different)]

theorem lookup_alloc
    (allocated : alloc value table = some (slot, next)) (place : Nat) :
    lookup next place = if place = slot then some value else lookup table place := by
  have same : store next slot value = next := by
    rw [store, (alloc_eq allocated).2, List.set_set]
  rw [← same]
  exact lookup_store allocated value place

/-- A slot that is given back at once leaves the table as it was. -/
theorem free_alloc
    (allocated : alloc value table = some (slot, next)) :
    free next slot = table := by
  obtain ⟨unused, same⟩ := alloc_eq allocated
  obtain ⟨inside, unused⟩ := List.getElem?_eq_some_iff.mp unused
  rw [free, same, List.set_set, ← unused, List.set_getElem_self]

end Alloc

end PicoJvm.Lib.SlotTable
