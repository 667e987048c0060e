import Mathlib.Data.List.Basic
import Mathlib.Data.Nat.ModEq

/-!
# Rings

Items are put into a list of fixed length behind each other, and go on at its
beginning when they reach its end. Both ends are copied in at most two runs.
-/

namespace PicoJvm.Lib.Ring

universe u

variable {item : Type u}

/-- The items at a number of places from `start` on. -/
def slice [Inhabited item] (ring : List item) (start count : Nat) : List item :=
  (List.range count).map fun place => ring.getD ((start + place) % ring.length) default

/-- The list with items written over its own, from a place on. -/
def overwrite (ring : List item) (start : Nat) (items : List item) : List item :=
  ring.take start ++ items ++ ring.drop (start + items.length)

/-- Items copied in from `head` on: up to the end of the ring, and the rest from its
beginning on. -/
def deposit (ring : List item) (head : Nat) (items : List item) : List item :=
  let first := min (ring.length - head) items.length
  let written := overwrite ring head (items.take first)
  if items.length > first then overwrite written 0 (items.drop first) else written

/-- Items copied out from `tail` on, in the same two runs. -/
def withdraw (ring : List item) (tail count : Nat) : List item :=
  let first := min (ring.length - tail) count
  (ring.drop tail).take first ++ if count > first then ring.take (count - first) else []

section Lengths

variable [Inhabited item]

@[simp] theorem slice_length (ring : List item) (start count : Nat) :
    (slice ring start count).length = count := by
  simp [slice]

@[simp] theorem slice_zero (ring : List item) (start : Nat) : slice ring start 0 = [] :=
  rfl

theorem slice_add (ring : List item) (start count count' : Nat) :
    slice ring start (count + count') =
      slice ring start count ++ slice ring ((start + count) % ring.length) count' := by
  unfold slice
  rw [List.range_add, List.map_append, List.map_map]
  congr 1
  apply List.map_congr_left
  intro place _
  simp [Nat.add_assoc]

end Lengths

theorem overwrite_length
    {ring items : List item} {start : Nat}
    (fits : start + items.length ≤ ring.length) :
    (overwrite ring start items).length = ring.length := by
  simp only [overwrite, List.length_append, List.length_take, List.length_drop]
  omega

/-- Items written over as many between others. -/
theorem overwrite_append
    {old items : List item}
    (sameLength : old.length = items.length)
    (front back : List item) :
    overwrite (front ++ (old ++ back)) front.length items = front ++ (items ++ back) := by
  rw [overwrite, List.take_left, List.drop_length_add_append, ← sameLength, List.drop_left,
    List.append_assoc]

/-- Items written behind others are written with them. -/
theorem overwrite_overwrite
    {ring items items' : List item} {start : Nat}
    (fits : start + (items ++ items').length ≤ ring.length) :
    overwrite (overwrite ring start items) (start + items.length) items' =
      overwrite ring start (items ++ items') := by
  rw [List.length_append] at fits
  have front : (ring.take start ++ items).length = start + items.length := by
    rw [List.length_append, List.length_take]
    omega
  simp only [overwrite, List.length_append]
  rw [← front, List.take_left, List.drop_length_add_append, List.drop_drop, front,
    List.append_assoc (ring.take start) items, Nat.add_assoc]

theorem getD_overwrite
    [Inhabited item] {ring items : List item} {start : Nat}
    (fits : start + items.length ≤ ring.length)
    (place : Nat) :
    (overwrite ring start items).getD place default =
      if start ≤ place ∧ place < start + items.length then
        items.getD (place - start) default
      else
        ring.getD place default := by
  have startLength : (ring.take start).length = start := by
    rw [List.length_take]
    omega
  unfold overwrite
  simp only [List.getD_eq_getElem?_getD, List.append_assoc]
  rcases Nat.lt_or_ge place start with before | behind
  · rw [List.getElem?_append_left (by omega), if_neg (by omega), List.getElem?_take, if_pos before]
  · rw [List.getElem?_append_right (by omega), startLength]
    rcases Nat.lt_or_ge place (start + items.length) with inside | after
    · rw [List.getElem?_append_left (by omega), if_pos ⟨behind, inside⟩]
    · rw [List.getElem?_append_right (by omega), if_neg (by omega), List.getElem?_drop]
      congr 2
      omega

theorem deposit_length
    {ring items : List item} {head : Nat}
    (inside : head < ring.length)
    (fits : items.length ≤ ring.length) :
    (deposit ring head items).length = ring.length := by
  unfold deposit
  have written : (overwrite ring head
      (items.take (min (ring.length - head) items.length))).length = ring.length := by
    refine overwrite_length ?_
    rw [List.length_take]
    omega
  dsimp only
  split
  · rw [overwrite_length, written]
    rw [List.length_drop, written]
    omega
  · exact written

/-- What stands at a place of the ring after a deposit, counted from its start. -/
theorem getD_deposit
    [Inhabited item] {ring items : List item} {head : Nat}
    (inside : head < ring.length)
    (fits : items.length ≤ ring.length)
    {place : Nat}
    (placeInside : place < ring.length) :
    (deposit ring head items).getD ((head + place) % ring.length) default =
      if place < items.length then
        items.getD place default
      else
        ring.getD ((head + place) % ring.length) default := by
  have firstFits : head + (items.take (min (ring.length - head) items.length)).length ≤
      ring.length := by
    rw [List.length_take]
    omega
  have written := overwrite_length firstFits
  have wrapped : (head + place) % ring.length =
      if head + place < ring.length then head + place else head + place - ring.length := by
    split
    · exact Nat.mod_eq_of_lt ‹_›
    · rw [Nat.mod_eq_sub_mod (by omega), Nat.mod_eq_of_lt (by omega)]
  unfold deposit
  dsimp only
  split
  · rename_i wraps
    have restFits : 0 + (items.drop (min (ring.length - head) items.length)).length ≤
        (overwrite ring head (items.take (min (ring.length - head) items.length))).length := by
      rw [List.length_drop, written]
      omega
    rw [getD_overwrite restFits, getD_overwrite firstFits, wrapped]
    simp only [List.length_take, List.length_drop, List.getD_eq_getElem?_getD,
      List.getElem?_take, List.getElem?_drop, Nat.zero_le, true_and, Nat.zero_add, Nat.sub_zero]
    rcases Nat.lt_or_ge (head + place) ring.length with below | above
    · rw [if_pos below, if_neg (by omega), if_pos (by omega), if_pos (by omega),
        if_pos (by omega)]
      congr 2
      omega
    · rw [if_neg (Nat.not_lt.mpr above)]
      by_cases new : place < items.length
      · rw [if_pos (by omega), if_pos new]
        congr 2
        omega
      · rw [if_neg (by omega), if_neg (by omega), if_neg new]
  · rw [getD_overwrite firstFits, wrapped]
    simp only [List.length_take, List.getD_eq_getElem?_getD, List.getElem?_take]
    rcases Nat.lt_or_ge (head + place) ring.length with below | above
    · rw [if_pos below]
      by_cases new : place < items.length
      · rw [if_pos (by omega), if_pos (by omega), if_pos new]
        congr 2
        omega
      · rw [if_neg (by omega), if_neg new]
    · rw [if_neg (Nat.not_lt.mpr above), if_neg (by omega), if_neg (by omega)]

/-- Items deposited behind those there come behind them. -/
theorem slice_deposit
    [Inhabited item] {ring items : List item} {tail used : Nat}
    (inside : tail < ring.length)
    (fits : used + items.length ≤ ring.length) :
    slice (deposit ring ((tail + used) % ring.length) items) tail (used + items.length) =
      slice ring tail used ++ items := by
  have nonempty : 0 < ring.length := by omega
  have headInside : (tail + used) % ring.length < ring.length := Nat.mod_lt _ nonempty
  have length := deposit_length headInside (show items.length ≤ ring.length by omega)
  rw [slice_add, length]
  congr 1
  · -- what was there lies in front of the place written to
    unfold slice
    rw [length]
    apply List.map_congr_left
    intro place member
    have below := List.mem_range.mp member
    have same : (tail + place) % ring.length =
        ((tail + used) % ring.length + (ring.length - used + place)) % ring.length := by
      rw [Nat.mod_add_mod, show tail + used + (ring.length - used + place) =
        tail + place + ring.length by omega, Nat.add_mod_right]
    rw [same, getD_deposit headInside (by omega) (by omega), if_neg (by omega)]
  · refine List.ext_getElem (by simp) ?_
    intro place _ placeInside
    simp only [slice, List.getElem_map, List.getElem_range, length]
    rw [getD_deposit headInside (by omega) (by omega), if_pos placeInside]
    simp [placeInside]

theorem withdraw_eq_slice
    [Inhabited item] {ring : List item} {tail count : Nat}
    (inside : tail < ring.length)
    (fits : count ≤ ring.length) :
    withdraw ring tail count = slice ring tail count := by
  refine List.ext_getElem ?_ ?_
  · simp only [withdraw, List.length_append, List.length_take, List.length_drop, slice_length]
    split
    · rw [List.length_take]
      omega
    · simp only [List.length_nil]
      omega
  · intro place placeInside placeInside'
    rw [slice_length] at placeInside'
    simp only [slice, List.getElem_map, List.getElem_range]
    have wrapped : (tail + place) % ring.length =
        if tail + place < ring.length then tail + place else tail + place - ring.length := by
      split
      · exact Nat.mod_eq_of_lt ‹_›
      · rw [Nat.mod_eq_sub_mod (by omega), Nat.mod_eq_of_lt (by omega)]
    rw [wrapped]
    simp only [withdraw]
    rcases Nat.lt_or_ge (tail + place) ring.length with below | above
    · rw [List.getElem_append_left (by simp; omega)]
      simp [below]
    · have goesOn : count > min (ring.length - tail) count := by omega
      have small : tail + place - ring.length < ring.length := by omega
      rw [List.getElem_append_right (by simp; omega)]
      simp only [if_pos goesOn, if_neg (Nat.not_lt.mpr above), List.getElem_take,
        List.length_take, List.length_drop, List.getD_eq_getElem?_getD,
        List.getElem?_eq_getElem small, Option.getD_some]
      congr 1
      omega

end PicoJvm.Lib.Ring
