import Mathlib.Data.List.GetD
import PicoJvm.Collections.Vector

/-!
# Vectors as lists

The elements of a vector are a list. Each method of a vector is one of the list.
-/

namespace PicoJvm.Collections.Vectors

open PicoJvm.Lib PicoJvm.Lib.Machine
open PicoJvm.Lib.Ring (overwrite overwrite_append)

variable {object : Type} {vector : Vector object} {elements : List (Option object)}

/-! ## Representation -/

/-- The elements stand in front, and every slot behind them is null. -/
structure Represents (vector : Vector object) (elements : List (Option object)) : Prop where
  count : vector.elementCount = elements.length
  data : ∃ spare : Nat, vector.elementData = elements ++ List.replicate spare none
  short : (vector.elementData.length : Int) ≤ maxArrayLength

/-- There is no array for so many elements, or for some more. -/
def Refused (room : Int → Bool) (least : Int) : Prop :=
  ∃ capacity, least ≤ capacity ∧ ¬ (capacity ≤ maxArrayLength ∧ room capacity = true)

theorem Represents.length_le (represents : Represents vector elements) :
    elements.length ≤ vector.elementData.length := by
  obtain ⟨spare, isData⟩ := represents.data
  rw [isData, List.length_append]
  exact Nat.le_add_right _ _

theorem Represents.inRange
    (represents : Represents vector elements) :
    (vector.elementData.length : Int) ≤ 2 ^ 27 := by
  have short := represents.short
  rw [maxArrayLength] at short
  exact short

/-! ## Arrays -/

theorem load_append
    {index : Nat}
    (inside : index < elements.length)
    (behind : List (Option object)) :
    load (elements ++ behind) index = .ok (elements.getD index none) := by
  rw [load, List.length_append, if_neg (by omega), Int.toNat_natCast,
    List.getD_append _ _ _ _ inside]

theorem load_negative
    {index : Int}
    (negative : index < 0)
    (data : List (Option object)) :
    load data index = .error .arrayIndexOutOfBounds := by
  rw [load, if_pos (Or.inl negative)]

theorem store_append
    {index : Nat}
    (inside : index < elements.length)
    (behind : List (Option object))
    (value : Option object) :
    store (elements ++ behind) index value = .ok (elements.set index value ++ behind) := by
  rw [store, List.length_append, if_neg (by omega), Int.toNat_natCast,
    List.set_append_left _ _ inside]

/-- The slot right behind some elements. -/
theorem store_behind
    (front back : List (Option object))
    (old value : Option object) :
    store (front ++ old :: back) front.length value = .ok (front ++ value :: back) := by
  rw [store, List.length_append, List.length_cons, if_neg (by omega), Int.toNat_natCast,
    List.set_append_right _ _ (Nat.le_refl _), Nat.sub_self, List.set_cons_zero]

theorem store_negative
    {index : Int}
    (negative : index < 0)
    (data : List (Option object))
    (value : Option object) :
    store data index value = .error .arrayIndexOutOfBounds := by
  rw [store, if_pos (Or.inl negative)]

theorem arraycopy_natural
    (src dst : List (Option object))
    (srcPos dstPos length : Nat)
    (inSource : srcPos + length ≤ src.length)
    (inDestination : dstPos + length ≤ dst.length) :
    arraycopy src srcPos dst dstPos length =
      .ok (overwrite dst dstPos ((src.drop srcPos).take length)) := by
  rw [arraycopy, if_neg (by omega)]
  simp only [Int.toNat_natCast]

/-! ## Capacity -/

/-- A longer array, or none. -/
theorem Represents.moveTo
    (represents : Represents vector elements)
    (room : Int → Bool)
    {least capacity : Int}
    (enough : least ≤ capacity)
    (fits : (elements.length : Int) ≤ capacity) :
    (moveTo room capacity vector = (.error .outOfMemory, vector) ∧ Refused room least) ∨
      ∃ vector', moveTo room capacity vector = (.ok (), vector') ∧
        Represents vector' elements ∧ (vector'.elementData.length : Int) = capacity := by
  by_cases granted : capacity ≤ maxArrayLength ∧ room capacity = true
  · right
    obtain ⟨size, rfl⟩ := Int.eq_ofNat_of_zero_le (Int.le_trans (Int.natCast_nonneg _) fits)
    have fits' : elements.length ≤ size := by omega
    obtain ⟨spare, isData⟩ := represents.data
    have isNew : List.replicate size (none : Option object) =
        [] ++ (List.replicate elements.length none ++
          List.replicate (size - elements.length) none) := by
      rw [List.nil_append, List.replicate_append_replicate, Nat.add_sub_cancel' fits']
    have copied : arraycopy vector.elementData 0 (List.replicate size none) 0
        vector.elementCount =
          .ok (elements ++ List.replicate (size - elements.length) none) := by
      have moved := arraycopy_natural vector.elementData (List.replicate size none) 0 0
        elements.length (by simpa using represents.length_le) (by simpa using fits')
      rw [represents.count]
      refine moved.trans ?_
      rw [List.drop_zero, isData, List.take_left, isNew]
      exact congrArg Except.ok (overwrite_append (by simp) [] _)
    refine ⟨{ vector with
      elementData := elements ++ List.replicate (size - elements.length) none }, ?_, ?_, ?_⟩
    · simp only [Vectors.moveTo, newArray, if_pos granted, Int.toNat_natCast, copied]
    · refine ⟨represents.count, ⟨_, rfl⟩, ?_⟩
      simpa [Nat.add_sub_cancel' fits'] using granted.1
    · simp [Nat.add_sub_cancel' fits']
  · left
    exact ⟨by simp only [Vectors.moveTo, newArray, if_neg granted], capacity, enough, granted⟩

theorem le_newCapacity (vector : Vector object) (minCapacity : Int) :
    minCapacity ≤ newCapacity vector minCapacity := by
  have larger (asked : Int) :
      minCapacity ≤ if asked < minCapacity then minCapacity else asked := by
    split <;> omega
  exact larger _

/-- The array becomes longer, or there is no memory and nothing changes. -/
theorem Represents.ensureCapacityHelper
    (represents : Represents vector elements)
    (room : Int → Bool)
    (minCapacity : Int)
    (fits : (elements.length : Int) ≤ minCapacity) :
    (ensureCapacityHelper room minCapacity vector = (.error .outOfMemory, vector) ∧
        Refused room minCapacity) ∨
      ∃ vector', ensureCapacityHelper room minCapacity vector = (.ok (), vector') ∧
        Represents vector' elements ∧ minCapacity ≤ vector'.elementData.length := by
  have enough := le_newCapacity vector minCapacity
  rcases represents.moveTo room enough (Int.le_trans fits enough) with
    refused | ⟨vector', moved, represents', isCapacity⟩
  · exact Or.inl refused
  · exact Or.inr ⟨vector', moved, represents', isCapacity ▸ enough⟩

theorem Represents.growFor
    (represents : Represents vector elements)
    (room : Int → Bool)
    (newcount : Int)
    (fits : (elements.length : Int) ≤ newcount) :
    (growFor room newcount vector = (.error .outOfMemory, vector) ∧ Refused room newcount) ∨
      ∃ vector', growFor room newcount vector = (.ok (), vector') ∧
        Represents vector' elements ∧ newcount ≤ vector'.elementData.length := by
  simp only [Vectors.growFor]
  by_cases full : newcount > vector.elementData.length
  · simp only [if_pos full]
    exact represents.ensureCapacityHelper room newcount fits
  · simp only [if_neg full]
    exact Or.inr ⟨vector, rfl, represents, Int.not_lt.mp full⟩

theorem clearFrom_zero (index : Int) (vector : Vector object) :
    clearFrom 0 index vector = (.ok (), vector) :=
  rfl

theorem clearFrom_succ (left : Nat) (index : Int) (vector : Vector object) :
    clearFrom (left + 1) index vector =
      match store vector.elementData index none with
      | .error failure => (.error failure, vector)
      | .ok data => clearFrom left (index + 1) { vector with elementData := data } :=
  rfl

/-- Null is stored over some elements. -/
theorem clearFrom_spec
    (front old back : List (Option object))
    (vector : Vector object)
    (isData : vector.elementData = front ++ (old ++ back)) :
    clearFrom old.length front.length vector =
      (.ok (), { vector with
        elementData := front ++ (List.replicate old.length none ++ back) }) := by
  induction old generalizing front vector with
  | nil =>
      simp only [List.length_nil, clearFrom_zero, List.replicate_zero]
      rw [← isData]
  | cons element old inductionHypothesis =>
      rw [List.length_cons, clearFrom_succ]
      rw [isData, List.cons_append, store_behind]
      have split : front ++ none :: (old ++ back) = (front ++ [none]) ++ (old ++ back) := by simp
      have next := inductionHypothesis (front ++ [none])
        { vector with elementData := front ++ none :: (old ++ back) } split
      rw [List.length_append, List.length_singleton, Int.natCast_add] at next
      refine next.trans ?_
      simp [List.replicate_succ]

/-- Growing a list appends null, and shrinking it takes elements away. -/
def resized (elements : List (Option object)) (newSize : Nat) : List (Option object) :=
  elements.take newSize ++ List.replicate (newSize - elements.length) none

theorem Represents.setSize
    (represents : Represents vector elements)
    (room : Int → Bool)
    (newSize : Nat) :
    (setSize room newSize vector = (.error .outOfMemory, vector) ∧
        elements.length < newSize ∧ Refused room newSize) ∨
      ∃ vector', setSize room newSize vector = (.ok (), vector') ∧
        Represents vector' (resized elements newSize) := by
  simp only [Vectors.setSize]
  rw [represents.count]
  by_cases larger : (newSize : Int) > elements.length ∧
      (newSize : Int) > vector.elementData.length
  · rw [if_pos larger]
    rcases represents.ensureCapacityHelper room newSize (by omega) with
      refused | ⟨vector', grown, represents', enough⟩
    · left
      rw [refused.1]
      exact ⟨rfl, Int.ofNat_lt.mp larger.1, refused.2⟩
    · right
      rw [grown]
      refine ⟨_, rfl, ?_, ?_, represents'.short⟩
      · simp only [resized, List.length_append, List.length_take, List.length_replicate]
        omega
      · obtain ⟨spare, isData⟩ := represents'.data
        refine ⟨spare - (newSize - elements.length), ?_⟩
        rw [isData, List.length_append, List.length_replicate] at enough
        simp only [resized, isData]
        rw [List.take_of_length_le (by omega), List.append_assoc,
          List.replicate_append_replicate, Nat.add_sub_cancel' (by omega)]
  · rw [if_neg larger]
    right
    obtain ⟨spare, isData⟩ := represents.data
    by_cases shrinks : newSize ≤ elements.length
    · have cleared := clearFrom_spec (elements.take newSize) (elements.drop newSize)
        (List.replicate spare none) vector
        (by rw [isData, ← List.append_assoc, List.take_append_drop])
      have lengthEq : ((elements.length : Int) - newSize).toNat = elements.length - newSize := by
        omega
      rw [List.length_drop, List.length_take, Nat.min_eq_left shrinks] at cleared
      rw [lengthEq, cleared]
      refine ⟨_, rfl, ?_, ?_, ?_⟩
      · simp only [resized, List.length_append, List.length_take, List.length_replicate]
        omega
      · refine ⟨elements.length - newSize + spare, ?_⟩
        simp [resized, Nat.sub_eq_zero_of_le shrinks]
      · have short := represents.short
        rw [isData, List.length_append, List.length_replicate] at short
        simp only [List.length_append, List.length_take, List.length_replicate]
        omega
    · -- the slots that become elements are null already
      have none_left : ((elements.length : Int) - newSize).toNat = 0 := by omega
      rw [none_left, clearFrom_zero]
      refine ⟨_, rfl, ?_, ?_, represents.short⟩
      · simp only [resized, List.length_append, List.length_take, List.length_replicate]
        omega
      · refine ⟨spare - (newSize - elements.length), ?_⟩
        rw [isData, List.length_append, List.length_replicate] at larger
        simp only [resized, isData]
        rw [List.take_of_length_le (by omega), List.append_assoc,
          List.replicate_append_replicate, Nat.add_sub_cancel' (by omega)]

theorem Represents.setSize_negative
    (represents : Represents vector elements)
    (room : Int → Bool)
    {newSize : Int}
    (negative : newSize < 0) :
    Vectors.setSize room newSize vector = (.error .arrayIndexOutOfBounds, vector) := by
  simp only [Vectors.setSize]
  rw [represents.count, if_neg (by omega)]
  obtain ⟨left, isLeft⟩ := Nat.exists_eq_succ_of_ne_zero
    (n := ((elements.length : Int) - newSize).toNat) (by omega)
  rw [isLeft, clearFrom_succ, store_negative negative]

theorem Represents.removeAllElements
    (represents : Represents vector elements) :
    ∃ vector', removeAllElements vector = (.ok (), vector') ∧ Represents vector' [] := by
  obtain ⟨spare, isData⟩ := represents.data
  have cleared := clearFrom_spec [] elements (List.replicate spare none) vector isData
  rw [List.length_nil, Int.natCast_zero] at cleared
  rw [Vectors.removeAllElements, represents.count, Int.toNat_natCast, cleared]
  refine ⟨_, rfl, rfl, ⟨elements.length + spare, ?_⟩, ?_⟩
  · simp
  · have short := represents.short
    rw [isData, List.length_append, List.length_replicate] at short
    simpa using short

/-! ## Elements -/

/-- The element at a place, or an exception. -/
def elementOf (elements : List (Option object)) (index : Int) : Except Failure (Option object) :=
  if 0 ≤ index ∧ index < elements.length then .ok (elements.getD index.toNat none)
  else .error .arrayIndexOutOfBounds

theorem load_eq_elementOf
    {index : Int}
    (below : index < elements.length)
    (behind : List (Option object)) :
    load (elements ++ behind) index = elementOf elements index := by
  rw [elementOf]
  by_cases negative : index < 0
  · rw [load_negative negative, if_neg (by omega)]
  · obtain ⟨place, rfl⟩ := Int.eq_ofNat_of_zero_le (Int.not_lt.mp negative)
    rw [load_append (Int.ofNat_lt.mp below), if_pos ⟨Int.natCast_nonneg _, below⟩,
      Int.toNat_natCast]

theorem Represents.elementAt
    (represents : Represents vector elements)
    (index : Int) :
    elementAt index vector = (elementOf elements index, vector) := by
  obtain ⟨spare, isData⟩ := represents.data
  rw [Vectors.elementAt, represents.count]
  split
  · next outside => rw [elementOf, if_neg (by omega)]
  · next below => rw [isData, load_eq_elementOf (Int.not_le.mp below)]

theorem Represents.firstElement
    (represents : Represents vector elements) :
    firstElement vector =
      (match elements.head? with
        | none => .error .noSuchElement
        | some element => .ok element, vector) := by
  obtain ⟨spare, isData⟩ := represents.data
  rw [Vectors.firstElement, represents.count, isData]
  cases elements with
  | nil =>
      rfl
  | cons element elements =>
      rw [if_neg (by simp; omega)]
      exact congrArg (·, vector) (@load_append object (element :: elements) 0 (by simp) _)

theorem Represents.lastElement
    (represents : Represents vector elements) :
    lastElement vector =
      (match elements.getLast? with
        | none => .error .noSuchElement
        | some element => .ok element, vector) := by
  obtain ⟨spare, isData⟩ := represents.data
  rw [Vectors.lastElement, represents.count, isData]
  rcases List.eq_nil_or_concat' elements with rfl | ⟨front, element, rfl⟩
  · rfl
  · have isLast : (((front ++ [element]).length : Nat) : Int) - 1 = front.length := by simp
    rw [if_neg (by simp; omega), isLast, load_append (by simp), List.getLast?_concat,
      List.getD_append_right _ _ _ _ (Nat.le_refl _), Nat.sub_self]
    rfl

theorem Represents.setElementAt
    (represents : Represents vector elements)
    (obj : Option object)
    {index : Nat}
    (inside : index < elements.length) :
    ∃ vector', setElementAt obj index vector = (.ok (), vector') ∧
      Represents vector' (elements.set index obj) := by
  obtain ⟨spare, isData⟩ := represents.data
  rw [Vectors.setElementAt, represents.count, if_neg (by omega), isData, store_append inside]
  refine ⟨_, rfl, ?_, ⟨spare, rfl⟩, ?_⟩
  · simp
  · simpa [isData] using represents.short

theorem Represents.setElementAt_outside
    (represents : Represents vector elements)
    (obj : Option object)
    {index : Int}
    (outside : ¬ (0 ≤ index ∧ index < elements.length)) :
    Vectors.setElementAt obj index vector = (.error .arrayIndexOutOfBounds, vector) := by
  rw [Vectors.setElementAt, represents.count]
  split
  · rfl
  · rw [store_negative (by omega)]

/-- The elements behind a place are moved down to it. -/
theorem arraycopy_down
    (front back spare : List (Option object))
    (element : Option object) :
    ∃ last, arraycopy (front ++ (element :: back ++ spare)) ((front.length : Int) + 1)
        (front ++ (element :: back ++ spare)) front.length back.length =
      .ok (front ++ (back ++ last :: spare)) := by
  have bounds : front.length + 1 + back.length ≤
      (front ++ (element :: back ++ spare)).length := by
    simp only [List.length_append, List.length_cons]
    omega
  have moved := arraycopy_natural (front ++ (element :: back ++ spare))
    (front ++ (element :: back ++ spare)) (front.length + 1) front.length back.length bounds
    (by omega)
  have isMoved : ((front ++ (element :: back ++ spare)).drop (front.length + 1)).take
      back.length = back := by
    rw [List.drop_length_add_append]
    simp
  rw [isMoved] at moved
  rcases List.eq_nil_or_concat' (element :: back) with isNil | ⟨before, last, isConcat⟩
  · cases isNil
  · have sameLength : before.length = back.length := by
      have lengths := congrArg List.length isConcat
      simp only [List.length_cons, List.length_append, List.length_nil] at lengths
      omega
    refine ⟨last, moved.trans ?_⟩
    rw [isConcat, List.append_assoc, overwrite_append sameLength]
    rfl

theorem Represents.removeElementAt
    {front back : List (Option object)} {element : Option object}
    (represents : Represents vector (front ++ element :: back)) :
    ∃ vector', removeElementAt front.length vector = (.ok (), vector') ∧
      Represents vector' (front ++ back) := by
  obtain ⟨spare, isData⟩ := represents.data
  rw [List.append_assoc] at isData
  have isCount : vector.elementCount = front.length + back.length + 1 := by
    rw [represents.count, List.length_append, List.length_cons]
    omega
  have below : vector.elementCount - front.length - 1 = back.length := by omega
  have behind : vector.elementCount - 1 = (front ++ back).length := by
    rw [List.length_append]
    omega
  have copied : ∃ last,
      (if (back.length : Int) > 0 then
        arraycopy vector.elementData ((front.length : Int) + 1) vector.elementData front.length
          back.length
      else .ok vector.elementData) =
        .ok (front ++ (back ++ last :: List.replicate spare none)) := by
    rw [isData]
    cases back with
    | nil =>
        exact ⟨element, rfl⟩
    | cons next back =>
        rw [if_pos (by simp)]
        exact arraycopy_down front (next :: back) (List.replicate spare none) element
  obtain ⟨last, copied⟩ := copied
  simp only [Vectors.removeElementAt]
  rw [if_neg (by omega), below, copied]
  simp only [behind]
  rw [← List.append_assoc, store_behind]
  refine ⟨_, rfl, rfl, ⟨spare + 1, rfl⟩, ?_⟩
  have short := represents.short
  simp only [isData, List.length_append, List.length_cons, List.length_replicate] at short ⊢
  omega

theorem Represents.removeElementAt_outside
    (represents : Represents vector elements)
    {index : Int}
    (outside : ¬ (0 ≤ index ∧ index < elements.length)) :
    Vectors.removeElementAt index vector = (.error .arrayIndexOutOfBounds, vector) := by
  rw [Vectors.removeElementAt, represents.count, if_pos (by omega)]

/-- The elements from a place on are moved up by one, into a free slot. -/
theorem arraycopy_up
    (front back spare : List (Option object))
    (free : Option object) :
    ∃ old, arraycopy (front ++ (back ++ free :: spare)) front.length
        (front ++ (back ++ free :: spare)) ((front.length : Int) + 1) back.length =
      .ok (front ++ old :: (back ++ spare)) := by
  have bounds : front.length + 1 + back.length ≤ (front ++ (back ++ free :: spare)).length := by
    simp only [List.length_append, List.length_cons]
    omega
  have moved := arraycopy_natural (front ++ (back ++ free :: spare))
    (front ++ (back ++ free :: spare)) front.length (front.length + 1) back.length (by omega)
    bounds
  rw [List.drop_left, List.take_left] at moved
  obtain ⟨old, others, isShifted⟩ : ∃ old others, back ++ [free] = old :: others := by
    cases back with
    | nil => exact ⟨free, [], rfl⟩
    | cons next back => exact ⟨next, back ++ [free], rfl⟩
  have sameLength : others.length = back.length := by
    have lengths := congrArg List.length isShifted
    simp only [List.length_cons, List.length_append, List.length_nil] at lengths
    omega
  have isData : front ++ (back ++ free :: spare) = (front ++ [old]) ++ (others ++ spare) := by
    rw [List.append_cons, isShifted]
    simp
  have place : front.length + 1 = (front ++ [old]).length := by simp
  refine ⟨old, moved.trans ?_⟩
  rw [place, isData, overwrite_append sameLength]
  simp

/-- There is a free slot behind the elements of a vector that has grown. -/
theorem Represents.spare_succ
    (represents : Represents vector elements)
    (enough : (elements.length : Int) + 1 ≤ vector.elementData.length) :
    ∃ spare : Nat, vector.elementData = elements ++ none :: List.replicate spare none := by
  obtain ⟨spare, isData⟩ := represents.data
  rw [isData, List.length_append, List.length_replicate] at enough
  obtain ⟨left, rfl⟩ := Nat.exists_eq_succ_of_ne_zero (n := spare) (by omega)
  exact ⟨left, isData⟩

theorem Represents.insertElementAt
    {front back : List (Option object)}
    (represents : Represents vector (front ++ back))
    (room : Int → Bool)
    (obj : Option object) :
    (insertElementAt room obj front.length vector = (.error .outOfMemory, vector) ∧
        Refused room (((front ++ back).length : Int) + 1)) ∨
      ∃ vector', insertElementAt room obj front.length vector = (.ok (), vector') ∧
        Represents vector' (front ++ obj :: back) := by
  have isCount := represents.count
  simp only [Vectors.insertElementAt]
  rw [if_neg (by rw [isCount, List.length_append]; omega), isCount]
  rcases represents.growFor room (((front ++ back).length : Int) + 1) (by omega) with
    refused | ⟨vector', grown, represents', enough⟩
  · left
    rw [refused.1]
    exact ⟨rfl, refused.2⟩
  · right
    obtain ⟨spare, isData⟩ := represents'.spare_succ enough
    rw [List.append_assoc] at isData
    have behind : vector'.elementCount - front.length = back.length := by
      rw [represents'.count, List.length_append]
      omega
    obtain ⟨old, copied⟩ := arraycopy_up front back (List.replicate spare none) none
    rw [grown]
    simp only [isData, behind, copied, store_behind]
    refine ⟨_, rfl, ?_, ⟨spare, ?_⟩, ?_⟩
    · simp only [represents'.count, List.length_append, List.length_cons]
      omega
    · rw [List.append_assoc, List.cons_append]
    · have short := represents'.short
      simp only [isData, List.length_append, List.length_cons, List.length_replicate] at short ⊢
      omega

theorem Represents.insertElementAt_outside
    (represents : Represents vector elements)
    (room : Int → Bool)
    (obj : Option object)
    {index : Int}
    (outside : ¬ (0 ≤ index ∧ index ≤ elements.length)) :
    Vectors.insertElementAt room obj index vector = (.error .arrayIndexOutOfBounds, vector) := by
  simp only [Vectors.insertElementAt]
  rw [represents.count, if_pos (by omega)]

theorem Represents.addElement
    (represents : Represents vector elements)
    (room : Int → Bool)
    (obj : Option object) :
    (addElement room obj vector = (.error .outOfMemory, vector) ∧
        Refused room ((elements.length : Int) + 1)) ∨
      ∃ vector', addElement room obj vector = (.ok (), vector') ∧
        Represents vector' (elements ++ [obj]) := by
  rw [Vectors.addElement, represents.count]
  rcases represents.growFor room ((elements.length : Int) + 1) (by omega) with
    refused | ⟨vector', grown, represents', enough⟩
  · left
    rw [refused.1]
    exact ⟨rfl, refused.2⟩
  · right
    obtain ⟨spare, isData⟩ := represents'.spare_succ enough
    rw [grown]
    simp only [isData, represents'.count, store_behind]
    refine ⟨_, rfl, by simp, ⟨spare, by simp⟩, ?_⟩
    simpa [isData] using represents'.short

/-! ## Searching -/

section Searching

variable (equals : object → Option object → Bool)

/-- The place of the first element from a place on that is the one searched for, or -1. -/
def placeFrom (elements : List (Option object)) (elem : Option object) (start : Nat) : Int :=
  match (elements.drop start).findIdx? (isElement equals elem) with
  | none => -1
  | some distance => start + distance

/-- The place of the last element among the first so many that is the one searched for, or -1. -/
def placeBefore (elements : List (Option object)) (elem : Option object) (finish : Nat) : Int :=
  match (elements.take finish).reverse.findIdx? (isElement equals elem) with
  | none => -1
  | some distance => finish - 1 - distance

theorem searchUp_succ
    (data : List (Option object)) (elem : Option object) (left : Nat) (index : Int) :
    searchUp equals data elem (left + 1) index =
      match load data index with
      | .error failure => .error failure
      | .ok e =>
          if isElement equals elem e then .ok index
          else searchUp equals data elem left (index + 1) :=
  rfl

theorem searchUp_spec
    {index left : Nat}
    (isLeft : index + left = elements.length)
    (behind : List (Option object))
    (elem : Option object) :
    searchUp equals (elements ++ behind) elem left index =
      .ok (placeFrom equals elements elem index) := by
  induction left generalizing index with
  | zero =>
      rw [placeFrom, List.drop_eq_nil_of_le (by omega)]
      rfl
  | succ left inductionHypothesis =>
      have inside : index < elements.length := by omega
      have next := @inductionHypothesis (index + 1) (by omega)
      rw [Int.natCast_add, Int.natCast_one] at next
      rw [searchUp_succ, load_append inside, next]
      simp only [placeFrom]
      rw [List.drop_eq_getElem_cons inside, List.findIdx?_cons,
        List.getD_eq_getElem _ _ inside]
      by_cases found : isElement equals elem elements[index] = true
      · rw [if_pos found, if_pos found]
        simp
      · rw [if_neg found, if_neg found]
        cases (elements.drop (index + 1)).findIdx? (isElement equals elem) with
        | none => rfl
        | some distance =>
            refine congrArg Except.ok ?_
            simp only [Option.map_some, Int.natCast_add, Int.natCast_one]
            omega

theorem searchDown_spec
    {left : Nat}
    (within : left ≤ elements.length)
    (behind : List (Option object))
    (elem : Option object) :
    searchDown equals (elements ++ behind) elem left =
      .ok (placeBefore equals elements elem left) := by
  induction left with
  | zero =>
      rfl
  | succ left inductionHypothesis =>
      have inside : left < elements.length := within
      rw [searchDown, load_append inside, inductionHypothesis (by omega)]
      simp only [placeBefore]
      rw [List.take_add_one, List.getElem?_eq_getElem inside, Option.toList_some,
        List.reverse_append, List.reverse_singleton, List.singleton_append, List.findIdx?_cons,
        List.getD_eq_getElem _ _ inside]
      by_cases found : isElement equals elem elements[left] = true
      · rw [if_pos found, if_pos found]
        simp
      · rw [if_neg found, if_neg found]
        cases (elements.take left).reverse.findIdx? (isElement equals elem) with
        | none => rfl
        | some distance =>
            refine congrArg Except.ok ?_
            simp only [Option.map_some, Int.natCast_add, Int.natCast_one]
            omega

theorem Represents.indexOf
    (represents : Represents vector elements)
    (elem : Option object)
    (index : Nat) :
    indexOf equals elem index vector = (.ok (placeFrom equals elements elem index), vector) := by
  obtain ⟨spare, isData⟩ := represents.data
  have isLeft : ((elements.length : Int) - index).toNat = elements.length - index := by omega
  rw [Vectors.indexOf, represents.count, isData, isLeft]
  by_cases within : index ≤ elements.length
  · rw [searchUp_spec equals (Nat.add_sub_cancel' within)]
  · rw [Nat.sub_eq_zero_of_le (by omega), placeFrom,
      List.drop_eq_nil_of_le (by omega)]
    rfl

/-- A negative index is one of the array for `indexOf`. -/
theorem Represents.indexOf_negative
    (represents : Represents vector elements)
    (elem : Option object)
    {index : Int}
    (negative : index < 0) :
    Vectors.indexOf equals elem index vector = (.error .arrayIndexOutOfBounds, vector) := by
  obtain ⟨left, isLeft⟩ := Nat.exists_eq_succ_of_ne_zero
    (n := ((elements.length : Int) - index).toNat) (by omega)
  rw [Vectors.indexOf, represents.count, isLeft, searchUp_succ, load_negative negative]

theorem Represents.lastIndexOf
    (represents : Represents vector elements)
    (elem : Option object)
    {index : Int}
    (below : index < elements.length) :
    lastIndexOf equals elem index vector =
      (.ok (placeBefore equals elements elem (index + 1).toNat), vector) := by
  obtain ⟨spare, isData⟩ := represents.data
  rw [Vectors.lastIndexOf, represents.count, if_neg (by omega), isData,
    searchDown_spec equals (by omega)]

theorem Represents.lastIndexOf_outside
    (represents : Represents vector elements)
    (elem : Option object)
    {index : Int}
    (outside : elements.length ≤ index) :
    Vectors.lastIndexOf equals elem index vector = (.error .indexOutOfBounds, vector) := by
  rw [Vectors.lastIndexOf, represents.count, if_pos outside]

theorem placeFrom_zero (elements : List (Option object)) (elem : Option object) :
    placeFrom equals elements elem 0 =
      match elements.findIdx? (isElement equals elem) with
      | none => -1
      | some place => (place : Int) := by
  simp only [placeFrom, List.drop_zero]
  cases elements.findIdx? (isElement equals elem) with
  | none => rfl
  | some place => simp

theorem Represents.contains
    (represents : Represents vector elements)
    (elem : Option object) :
    contains equals elem vector = (.ok (elements.any (isElement equals elem)), vector) := by
  have searched := represents.indexOf equals elem 0
  rw [Int.natCast_zero, placeFrom_zero] at searched
  rw [Vectors.contains, searched, ← List.findIdx?_isSome]
  cases elements.findIdx? (isElement equals elem) with
  | none => rfl
  | some place => simp

/-- The first element that is the one given is removed. -/
theorem Represents.removeElement
    (represents : Represents vector elements)
    (obj : Option object) :
    ∃ vector', removeElement equals obj vector =
        (.ok (elements.any (isElement equals obj)), vector') ∧
      Represents vector' (elements.eraseP (isElement equals obj)) := by
  have searched := represents.indexOf equals obj 0
  rw [Int.natCast_zero, placeFrom_zero] at searched
  rw [Vectors.removeElement, searched, List.eraseP_eq_eraseIdx, ← List.findIdx?_isSome]
  cases isPlace : elements.findIdx? (isElement equals obj) with
  | none => exact ⟨vector, rfl, represents⟩
  | some place =>
      have inside : place < elements.length :=
        (List.findIdx?_eq_some_iff_getElem.mp isPlace).choose
      have isSplit : elements = elements.take place ++
          elements[place] :: elements.drop (place + 1) := by
        rw [← List.drop_eq_getElem_cons inside, List.take_append_drop]
      have front : (elements.take place).length = place := by
        rw [List.length_take]
        omega
      obtain ⟨vector', removed, represents'⟩ :=
        Represents.removeElementAt (isSplit ▸ represents)
      rw [front] at removed
      refine ⟨vector', ?_, ?_⟩
      · simp only [removed]
        simp
      · change Represents vector' (elements.eraseIdx place)
        rw [List.eraseIdx_eq_take_drop_succ]
        exact represents'

end Searching

/-! ## Copies -/

theorem copyLoop_spec
    {left : Nat} {anArray : List (Option object)}
    (within : left ≤ elements.length)
    (fits : left ≤ anArray.length)
    (behind : List (Option object)) :
    copyLoop (elements ++ behind) left anArray =
      (.ok (), elements.take left ++ anArray.drop left) := by
  induction left generalizing anArray with
  | zero =>
      rfl
  | succ left inductionHypothesis =>
      have inside : left < elements.length := within
      have stored := @store_append object anArray left fits [] (elements.getD left none)
      rw [List.append_nil, List.append_nil] at stored
      have longer : elements.take (left + 1) = elements.take left ++ [elements[left]] := by
        rw [List.take_add_one, List.getElem?_eq_getElem inside, Option.toList_some]
      simp only [copyLoop, load_append inside, stored]
      rw [inductionHypothesis (by omega) (by rw [List.length_set]; omega), longer,
        List.getD_eq_getElem _ _ inside,
        List.drop_eq_getElem_cons (by rw [List.length_set]; exact fits),
        List.getElem_set_self, List.drop_set_of_lt (by omega), List.append_assoc,
        List.singleton_append]

theorem Represents.copyInto
    (represents : Represents vector elements)
    (anArray : List (Option object)) :
    copyInto anArray vector =
      if elements.length ≤ anArray.length then
        (.ok (), elements ++ anArray.drop elements.length)
      else (.error .arrayIndexOutOfBounds, anArray) := by
  obtain ⟨spare, isData⟩ := represents.data
  rw [Vectors.copyInto, represents.count, isData, Int.toNat_natCast]
  by_cases fits : elements.length ≤ anArray.length
  · rw [if_pos fits, copyLoop_spec (Nat.le_refl _) fits, List.take_length]
  · obtain ⟨left, isLeft⟩ := Nat.exists_eq_succ_of_ne_zero (n := elements.length) (by omega)
    rw [if_neg fits, isLeft, copyLoop, load_append (by omega)]
    simp only [store]
    rw [if_pos (by omega)]

end PicoJvm.Collections.Vectors
