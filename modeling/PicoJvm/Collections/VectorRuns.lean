import PicoJvm.Collections.VectorList
import PicoJvm.Lib.Refinement

/-!
# Histories of a vector

From its constructor on a vector answers like a list, also when an allocation fails, and so do its
enumerators. A stack gives back what was pushed last.
-/

namespace PicoJvm.Collections.Vectors

open PicoJvm.Lib PicoJvm.Lib.Transducer PicoJvm.Lib.Refinement

variable {object : Type}

/-! ## Calls -/

/-- A call of a method. An enumerator is named by its number. -/
inductive Call (object : Type)
  | size
  | isEmpty
  | trimToSize (room : Int → Bool)
  | ensureCapacity (room : Int → Bool) (minCapacity : Int)
  | setSize (room : Int → Bool) (newSize : Int)
  | copyInto (anArray : List (Option object))
  | contains (elem : Option object)
  | indexOf (elem : Option object)
  | indexOfFrom (elem : Option object) (index : Int)
  | lastIndexOf (elem : Option object)
  | lastIndexOfFrom (elem : Option object) (index : Int)
  | elementAt (index : Int)
  | firstElement
  | lastElement
  | setElementAt (obj : Option object) (index : Int)
  | removeElementAt (index : Int)
  | insertElementAt (room : Int → Bool) (obj : Option object) (index : Int)
  | addElement (room : Int → Bool) (obj : Option object)
  | removeElement (obj : Option object)
  | removeAllElements
  | elements
  | hasMoreElements (enumerator : Nat)
  | nextElement (enumerator : Nat)
  | push (room : Int → Bool) (item : Option object)
  | pop
  | peek
  | empty
  | search (o : Option object)

/-- What a call comes to. -/
inductive Answer (object : Type)
  | nothing
  | number (value : Int)
  | truth (value : Bool)
  | reference (value : Option object)
  | array (thrown : Option Failure) (anArray : List (Option object))
  | thrown (failure : Failure)
  deriving DecidableEq, Repr

/-- A vector, and the count of each of its enumerators. -/
structure State (object : Type) where
  vector : Vector object
  counts : List Int
  deriving DecidableEq, Repr

/-- The answer with what a method returns or throws. -/
def given {result : Type} (toAnswer : result → Answer object) :
    Except Failure result → Answer object
  | .error failure => .thrown failure
  | .ok value => toAnswer value

/-- The method was called. -/
def State.after {result : Type} (state : State object) (toAnswer : result → Answer object)
    (outcome : Except Failure result × Vector object) : Answer object × State object :=
  (given toAnswer outcome.1, { state with vector := outcome.2 })

/-- The outcome of `copyInto`. -/
def copied (outcome : Except Failure Unit × List (Option object)) : Answer object :=
  match outcome.1 with
  | .error failure => .array (some failure) outcome.2
  | .ok () => .array none outcome.2

/-- A call on a vector that may be a stack. -/
def respond (equals : object → Option object → Bool) (state : State object) :
    Call object → Answer object × State object
  | .size => (.number state.vector.elementCount, state)
  | .isEmpty => (.truth (state.vector.elementCount == 0), state)
  | .trimToSize room => state.after (fun _ => .nothing) (trimToSize room state.vector)
  | .ensureCapacity room minCapacity =>
      state.after (fun _ => .nothing) (ensureCapacity room minCapacity state.vector)
  | .setSize room newSize => state.after (fun _ => .nothing) (setSize room newSize state.vector)
  | .copyInto anArray => (copied (copyInto anArray state.vector), state)
  | .contains elem => state.after .truth (contains equals elem state.vector)
  | .indexOf elem => state.after .number (indexOf equals elem 0 state.vector)
  | .indexOfFrom elem index => state.after .number (indexOf equals elem index state.vector)
  | .lastIndexOf elem =>
      state.after .number (lastIndexOf equals elem (state.vector.elementCount - 1) state.vector)
  | .lastIndexOfFrom elem index =>
      state.after .number (lastIndexOf equals elem index state.vector)
  | .elementAt index => state.after .reference (elementAt index state.vector)
  | .firstElement => state.after .reference (firstElement state.vector)
  | .lastElement => state.after .reference (lastElement state.vector)
  | .setElementAt obj index =>
      state.after (fun _ => .nothing) (setElementAt obj index state.vector)
  | .removeElementAt index => state.after (fun _ => .nothing) (removeElementAt index state.vector)
  | .insertElementAt room obj index =>
      state.after (fun _ => .nothing) (insertElementAt room obj index state.vector)
  | .addElement room obj => state.after (fun _ => .nothing) (addElement room obj state.vector)
  | .removeElement obj => state.after .truth (removeElement equals obj state.vector)
  | .removeAllElements => state.after (fun _ => .nothing) (removeAllElements state.vector)
  | .elements => (.number state.counts.length, { state with counts := state.counts ++ [0] })
  | .hasMoreElements enumerator =>
      match state.counts[enumerator]? with
      | none => (.nothing, state)
      | some count => (.truth (decide (count < state.vector.elementCount)), state)
  | .nextElement enumerator =>
      match state.counts[enumerator]? with
      | none => (.nothing, state)
      | some count =>
          let (outcome, count) := nextElement count state.vector
          (given .reference outcome, { state with counts := state.counts.set enumerator count })
  | .push room item => state.after .reference (push room item state.vector)
  | .pop => state.after .reference (pop state.vector)
  | .peek => state.after .reference (peek state.vector)
  | .empty => (.truth (state.vector.elementCount == 0), state)
  | .search o => state.after .number (search equals o state.vector)

/-! ## Lists -/

/-- A list, and how far each of its enumerators is. -/
structure Listing (object : Type) where
  elements : List (Option object)
  counts : List Nat

/-- An element of a list, or the exception when there is none. -/
def elementOr (failure : Failure) : Option (Option object) → Except Failure (Option object)
  | none => .error failure
  | some element => .ok element

/-- The list becomes another one where the index is inside of bounds. -/
def Listing.changed (listing : Listing object) (inside : Prop) [Decidable inside]
    (elements : List (Option object)) : Answer object × Listing object :=
  if inside then (.nothing, { listing with elements := elements })
  else (.thrown .arrayIndexOutOfBounds, listing)

/-- What a call is for a list. -/
def listCall (equals : object → Option object → Bool) (listing : Listing object) :
    Call object → Answer object × Listing object
  | .size => (.number listing.elements.length, listing)
  | .isEmpty => (.truth listing.elements.isEmpty, listing)
  | .trimToSize _ => (.nothing, listing)
  | .ensureCapacity _ _ => (.nothing, listing)
  | .setSize _ newSize => listing.changed (0 ≤ newSize) (resized listing.elements newSize.toNat)
  | .copyInto anArray =>
      (if listing.elements.length ≤ anArray.length then
        .array none (listing.elements ++ anArray.drop listing.elements.length)
      else .array (some .arrayIndexOutOfBounds) anArray, listing)
  | .contains elem => (.truth (listing.elements.any (isElement equals elem)), listing)
  | .indexOf elem => (.number (placeFrom equals listing.elements elem 0), listing)
  | .indexOfFrom elem index =>
      (if index < 0 then .thrown .arrayIndexOutOfBounds
      else .number (placeFrom equals listing.elements elem index.toNat), listing)
  | .lastIndexOf elem =>
      (.number (placeBefore equals listing.elements elem listing.elements.length), listing)
  | .lastIndexOfFrom elem index =>
      (if listing.elements.length ≤ index then .thrown .indexOutOfBounds
      else .number (placeBefore equals listing.elements elem (index + 1).toNat), listing)
  | .elementAt index => (given .reference (elementOf listing.elements index), listing)
  | .firstElement =>
      (given .reference (elementOr .noSuchElement listing.elements.head?), listing)
  | .lastElement =>
      (given .reference (elementOr .noSuchElement listing.elements.getLast?), listing)
  | .setElementAt obj index =>
      listing.changed (0 ≤ index ∧ index < listing.elements.length)
        (listing.elements.set index.toNat obj)
  | .removeElementAt index =>
      listing.changed (0 ≤ index ∧ index < listing.elements.length)
        (listing.elements.eraseIdx index.toNat)
  | .insertElementAt _ obj index =>
      listing.changed (0 ≤ index ∧ index ≤ listing.elements.length)
        (listing.elements.take index.toNat ++ obj :: listing.elements.drop index.toNat)
  | .addElement _ obj => (.nothing, { listing with elements := listing.elements ++ [obj] })
  | .removeElement obj =>
      (.truth (listing.elements.any (isElement equals obj)),
        { listing with elements := listing.elements.eraseP (isElement equals obj) })
  | .removeAllElements => (.nothing, { listing with elements := [] })
  | .elements => (.number listing.counts.length, { listing with counts := listing.counts ++ [0] })
  | .hasMoreElements enumerator =>
      match listing.counts[enumerator]? with
      | none => (.nothing, listing)
      | some count => (.truth (decide (count < listing.elements.length)), listing)
  | .nextElement enumerator =>
      match listing.counts[enumerator]? with
      | none => (.nothing, listing)
      | some count =>
          match listing.elements[count]? with
          | none => (.thrown .noSuchElement, listing)
          | some element =>
              (.reference element,
                { listing with counts := listing.counts.set enumerator (count + 1) })
  | .push _ item => (.reference item, { listing with elements := listing.elements ++ [item] })
  | .pop =>
      (given .reference (elementOr .emptyStack listing.elements.getLast?),
        { listing with elements := listing.elements.dropLast })
  | .peek => (given .reference (elementOr .emptyStack listing.elements.getLast?), listing)
  | .empty => (.truth listing.elements.isEmpty, listing)
  | .search o =>
      let i := placeBefore equals listing.elements o listing.elements.length
      (.number (if i ≥ 0 then listing.elements.length - i else -1), listing)

/-- The length of the array that a call may need, and whether there is memory for it. -/
def asks (elements : List (Option object)) : Call object → Option ((Int → Bool) × Int)
  | .trimToSize room => some (room, elements.length)
  | .ensureCapacity room minCapacity =>
      if elements.length < minCapacity then some (room, minCapacity) else none
  | .setSize room newSize => if elements.length < newSize then some (room, newSize) else none
  | .insertElementAt room _ index =>
      if 0 ≤ index ∧ index ≤ elements.length then some (room, elements.length + 1) else none
  | .addElement room _ => some (room, elements.length + 1)
  | .push room _ => some (room, elements.length + 1)
  | _ => none

/-- What a call may come to: what it is for a list, or nothing where there is no memory. -/
inductive Meets (equals : object → Option object → Bool) (listing : Listing object) :
    Call object → Answer object → Listing object → Prop
  | performs (call : Call object) :
      Meets equals listing call (listCall equals listing call).1 (listCall equals listing call).2
  | refused {call : Call object} {room : Int → Bool} {least : Int}
      (asked : asks listing.elements call = some (room, least))
      (refused : Refused room least) :
      Meets equals listing call (.thrown .outOfMemory) listing

/-! ## Refinement -/

section Answers

variable {equals : object → Option object → Bool} {state : State object}
  {listing : Listing object} {call : Call object}

/-- The vector has the elements of the list, and its enumerators are as far. -/
structure Tracks (state : State object) (listing : Listing object) : Prop where
  vector : Represents state.vector listing.elements
  counts : state.counts = listing.counts.map (fun count : Nat => (count : Int))

/-- The answer is one for the list, and so is the state behind it. -/
def Answers (equals : object → Option object → Bool) (listing : Listing object)
    (call : Call object) (responded : Answer object × State object) : Prop :=
  ∃ next, Meets equals listing call responded.1 next ∧ Tracks responded.2 next

theorem Answers.of_eq
    {answer : Answer object} {state' : State object}
    (next : Listing object)
    (isList : listCall equals listing call = (answer, next))
    (tracks : Tracks state' next) :
    Answers equals listing call (answer, state') := by
  have performed : Meets equals listing call (listCall equals listing call).1
      (listCall equals listing call).2 :=
    .performs call
  rw [isList] at performed
  exact ⟨next, performed, tracks⟩

/-- The method leaves the vector as it is. -/
theorem Tracks.unchanged
    {result : Type} {toAnswer : result → Answer object}
    {outcome : Except Failure result × Vector object} {ends : Except Failure result}
    (tracks : Tracks state listing)
    (performed : outcome = (ends, state.vector))
    (isList : listCall equals listing call = (given toAnswer ends, listing)) :
    Answers equals listing call (state.after toAnswer outcome) := by
  rw [performed]
  exact .of_eq _ isList tracks

/-- The method changes the vector. -/
theorem Tracks.changed
    {result : Type} {toAnswer : result → Answer object} {value : result}
    {outcome : Except Failure result × Vector object} {elements : List (Option object)}
    (tracks : Tracks state listing)
    (performed : ∃ vector', outcome = (.ok value, vector') ∧ Represents vector' elements)
    (isList : listCall equals listing call =
      (toAnswer value, { listing with elements := elements })) :
    Answers equals listing call (state.after toAnswer outcome) := by
  obtain ⟨vector', performed, represents⟩ := performed
  rw [performed]
  exact .of_eq _ isList ⟨represents, tracks.counts⟩

/-- The method may need memory. -/
theorem Tracks.grown
    {result : Type} {toAnswer : result → Answer object}
    {outcome : Except Failure result × Vector object} {elements : List (Option object)}
    {room : Int → Bool} {least : Int}
    (tracks : Tracks state listing)
    (value : result)
    (performed : (outcome = (.error .outOfMemory, state.vector) ∧ Refused room least) ∨
      ∃ vector', outcome = (.ok value, vector') ∧ Represents vector' elements)
    (asked : asks listing.elements call = some (room, least))
    (isList : listCall equals listing call =
      (toAnswer value, { listing with elements := elements })) :
    Answers equals listing call (state.after toAnswer outcome) := by
  rcases performed with ⟨performed, refused⟩ | performed
  · rw [performed]
    exact ⟨listing, .refused asked refused, tracks⟩
  · exact tracks.changed performed isList

theorem Listing.changed_of
    {inside : Prop} [Decidable inside]
    (holds : inside)
    (elements : List (Option object)) :
    listing.changed inside elements = (.nothing, { listing with elements := elements }) := by
  rw [Listing.changed, if_pos holds]

theorem Listing.changed_of_not
    {inside : Prop} [Decidable inside]
    (outside : ¬ inside)
    (elements : List (Option object)) :
    listing.changed inside elements = (.thrown .arrayIndexOutOfBounds, listing) := by
  rw [Listing.changed, if_neg outside]

theorem Tracks.trimToSize (tracks : Tracks state listing) (room : Int → Bool) :
    Answers equals listing (.trimToSize room) (respond equals state (.trimToSize room)) := by
  have isCount := tracks.vector.count
  change Answers equals listing _ (state.after _ (Vectors.trimToSize room state.vector))
  rw [Vectors.trimToSize, isCount]
  split
  · refine tracks.grown () ?_ rfl rfl
    rcases tracks.vector.moveTo room (Int.le_refl _) (Int.le_refl _) with
      refused | ⟨vector', moved, represents, _⟩
    · exact Or.inl refused
    · exact Or.inr ⟨vector', moved, represents⟩
  · exact tracks.unchanged rfl rfl

theorem Tracks.ensureCapacity
    (tracks : Tracks state listing)
    (room : Int → Bool)
    (minCapacity : Int) :
    Answers equals listing (.ensureCapacity room minCapacity)
      (respond equals state (.ensureCapacity room minCapacity)) := by
  change Answers equals listing _
    (state.after _ (Vectors.ensureCapacity room minCapacity state.vector))
  rw [Vectors.ensureCapacity]
  split
  · next larger =>
      have below := tracks.vector.length_le
      have asked : (listing.elements.length : Int) < minCapacity := by omega
      refine tracks.grown () ?_ (if_pos asked) rfl
      rcases tracks.vector.ensureCapacityHelper room minCapacity (Int.le_of_lt asked) with
        refused | ⟨vector', grown, represents, _⟩
      · exact Or.inl refused
      · exact Or.inr ⟨vector', grown, represents⟩
  · exact tracks.unchanged rfl rfl

theorem Tracks.setSize
    (tracks : Tracks state listing)
    (room : Int → Bool)
    (newSize : Int) :
    Answers equals listing (.setSize room newSize)
      (respond equals state (.setSize room newSize)) := by
  change Answers equals listing _ (state.after _ (Vectors.setSize room newSize state.vector))
  by_cases negative : newSize < 0
  · exact tracks.unchanged (tracks.vector.setSize_negative room negative)
      (Listing.changed_of_not (Int.not_le.mpr negative) _)
  · obtain ⟨size, rfl⟩ := Int.eq_ofNat_of_zero_le (Int.not_lt.mp negative)
    have isList : listing.changed (0 ≤ (size : Int)) (resized listing.elements size) =
        (.nothing, { listing with elements := resized listing.elements size }) :=
      Listing.changed_of (Int.natCast_nonneg size) _
    rcases tracks.vector.setSize room size with ⟨performed, larger, refused⟩ | performed
    · rw [performed]
      exact ⟨listing, .refused (if_pos (Int.ofNat_lt.mpr larger)) refused, tracks⟩
    · exact tracks.changed performed isList

theorem Tracks.copyInto (tracks : Tracks state listing) (anArray : List (Option object)) :
    Answers equals listing (.copyInto anArray) (respond equals state (.copyInto anArray)) := by
  refine .of_eq _ ?_ tracks
  rw [tracks.vector.copyInto, listCall]
  split <;> rfl

theorem Tracks.setElementAt
    (tracks : Tracks state listing)
    (obj : Option object)
    (index : Int) :
    Answers equals listing (.setElementAt obj index)
      (respond equals state (.setElementAt obj index)) := by
  by_cases inside : 0 ≤ index ∧ index < listing.elements.length
  · obtain ⟨place, rfl⟩ := Int.eq_ofNat_of_zero_le inside.1
    exact tracks.changed (tracks.vector.setElementAt obj (Int.ofNat_lt.mp inside.2))
      (Listing.changed_of inside _)
  · exact tracks.unchanged (tracks.vector.setElementAt_outside obj inside)
      (Listing.changed_of_not inside _)

/-- A list is split where it has an index. -/
theorem split_at
    {elements : List (Option object)} {place : Nat}
    (inside : place < elements.length) :
    (elements.take place).length = place ∧
      elements = elements.take place ++ elements[place] :: elements.drop (place + 1) := by
  constructor
  · rw [List.length_take]
    omega
  · rw [← List.drop_eq_getElem_cons inside, List.take_append_drop]

theorem Represents.eraseIdx
    {vector : Vector object} {elements : List (Option object)} {place : Nat}
    (represents : Represents vector elements)
    (inside : place < elements.length) :
    ∃ vector', Vectors.removeElementAt place vector = (.ok (), vector') ∧
      Represents vector' (elements.eraseIdx place) := by
  obtain ⟨front, isSplit⟩ := split_at inside
  have removed := Represents.removeElementAt (isSplit ▸ represents)
  rw [front] at removed
  rw [List.eraseIdx_eq_take_drop_succ]
  exact removed

theorem Tracks.removeElementAt (tracks : Tracks state listing) (index : Int) :
    Answers equals listing (.removeElementAt index)
      (respond equals state (.removeElementAt index)) := by
  by_cases inside : 0 ≤ index ∧ index < listing.elements.length
  · obtain ⟨place, rfl⟩ := Int.eq_ofNat_of_zero_le inside.1
    exact tracks.changed (tracks.vector.eraseIdx (Int.ofNat_lt.mp inside.2))
      (Listing.changed_of inside _)
  · exact tracks.unchanged (tracks.vector.removeElementAt_outside inside)
      (Listing.changed_of_not inside _)

theorem Tracks.insertElementAt
    (tracks : Tracks state listing)
    (room : Int → Bool)
    (obj : Option object)
    (index : Int) :
    Answers equals listing (.insertElementAt room obj index)
      (respond equals state (.insertElementAt room obj index)) := by
  by_cases inside : 0 ≤ index ∧ index ≤ listing.elements.length
  · obtain ⟨place, rfl⟩ := Int.eq_ofNat_of_zero_le inside.1
    have front : (listing.elements.take place).length = place := by
      rw [List.length_take]
      omega
    have represents := tracks.vector
    rw [← List.take_append_drop place listing.elements] at represents
    have inserted := represents.insertElementAt room obj
    rw [front, List.take_append_drop] at inserted
    exact tracks.grown () inserted (if_pos inside) (Listing.changed_of inside _)
  · exact tracks.unchanged (tracks.vector.insertElementAt_outside room obj inside)
      (Listing.changed_of_not inside _)

theorem Tracks.indexOf
    (tracks : Tracks state listing)
    (elem : Option object)
    (index : Int) :
    Answers equals listing (.indexOfFrom elem index)
      (respond equals state (.indexOfFrom elem index)) := by
  by_cases negative : index < 0
  · refine tracks.unchanged (tracks.vector.indexOf_negative equals elem negative) ?_
    exact congrArg (·, listing) (if_pos negative)
  · obtain ⟨place, rfl⟩ := Int.eq_ofNat_of_zero_le (Int.not_lt.mp negative)
    refine tracks.unchanged (tracks.vector.indexOf equals elem place) ?_
    exact congrArg (·, listing) (if_neg negative)

theorem Tracks.lastIndexOf
    (tracks : Tracks state listing)
    (elem : Option object)
    (index : Int) :
    Answers equals listing (.lastIndexOfFrom elem index)
      (respond equals state (.lastIndexOfFrom elem index)) := by
  by_cases outside : (listing.elements.length : Int) ≤ index
  · refine tracks.unchanged (tracks.vector.lastIndexOf_outside equals elem outside) ?_
    exact congrArg (·, listing) (if_pos outside)
  · refine tracks.unchanged (tracks.vector.lastIndexOf equals elem (Int.not_le.mp outside)) ?_
    exact congrArg (·, listing) (if_neg outside)

/-- The search of the whole vector from its end. -/
theorem Tracks.lastIndexOf_whole (tracks : Tracks state listing) (elem : Option object) :
    Vectors.lastIndexOf equals elem (state.vector.elementCount - 1) state.vector =
      (.ok (placeBefore equals listing.elements elem listing.elements.length), state.vector) := by
  have whole : ((listing.elements.length : Int) - 1 + 1).toNat = listing.elements.length := by
    omega
  rw [tracks.vector.count, tracks.vector.lastIndexOf equals elem (by omega), whole]

theorem Tracks.lookup (tracks : Tracks state listing) (enumerator : Nat) :
    state.counts[enumerator]? =
      listing.counts[enumerator]?.map (fun count : Nat => (count : Int)) := by
  rw [tracks.counts, List.getElem?_map]

theorem Tracks.hasMoreElements (tracks : Tracks state listing) (enumerator : Nat) :
    Answers equals listing (.hasMoreElements enumerator)
      (respond equals state (.hasMoreElements enumerator)) := by
  rw [respond, tracks.lookup]
  cases isCount : listing.counts[enumerator]? with
  | none => exact .of_eq _ (by rw [listCall, isCount]) tracks
  | some count =>
      refine .of_eq _ ?_ tracks
      rw [listCall, isCount, tracks.vector.count]
      simp

theorem Tracks.nextElement (tracks : Tracks state listing) (enumerator : Nat) :
    Answers equals listing (.nextElement enumerator)
      (respond equals state (.nextElement enumerator)) := by
  rw [respond, tracks.lookup]
  cases isCount : listing.counts[enumerator]? with
  | none => exact .of_eq _ (by rw [listCall, isCount]) tracks
  | some count =>
      obtain ⟨spare, isData⟩ := tracks.vector.data
      simp only [Option.map_some, Vectors.nextElement, tracks.vector.count]
      by_cases more : count < listing.elements.length
      · rw [if_pos (Int.ofNat_lt.mpr more), isData, load_append more,
          List.getD_eq_getElem _ _ more]
        refine .of_eq { listing with counts := listing.counts.set enumerator (count + 1) } ?_
          ⟨tracks.vector, ?_⟩
        · simp [listCall, isCount, List.getElem?_eq_getElem more, given]
        · simp [tracks.counts, List.map_set]
      · rw [if_neg (fun less => more (Int.ofNat_lt.mp less))]
        refine .of_eq listing ?_ ⟨tracks.vector, ?_⟩
        · simp [listCall, isCount, List.getElem?_eq_none (Nat.not_lt.mp more), given]
        · obtain ⟨inside, rfl⟩ := List.getElem?_eq_some_iff.mp isCount
          change state.counts.set enumerator ((listing.counts[enumerator] : Nat) : Int) = _
          rw [tracks.counts, ← List.map_set, List.set_getElem_self]

/-! ### Stack -/

theorem Represents.peek
    {vector : Vector object} {elements : List (Option object)}
    (represents : Represents vector elements) :
    peek vector = (elementOr .emptyStack elements.getLast?, vector) := by
  rw [Vectors.peek, represents.count]
  rcases List.eq_nil_or_concat' elements with rfl | ⟨front, element, rfl⟩
  · rfl
  · have isLast : (((front ++ [element]).length : Nat) : Int) - 1 = front.length := by simp
    rw [if_neg (by simp; omega), isLast, represents.elementAt, List.getLast?_concat, elementOr,
      elementOf, if_pos ⟨Int.natCast_nonneg _, by simp⟩, Int.toNat_natCast,
      List.getD_append_right _ _ _ _ (Nat.le_refl _), Nat.sub_self]
    rfl

theorem Represents.pop
    {vector : Vector object} {elements : List (Option object)}
    (represents : Represents vector elements) :
    ∃ vector', pop vector = (elementOr .emptyStack elements.getLast?, vector') ∧
      Represents vector' elements.dropLast := by
  simp only [Vectors.pop, represents.peek]
  rcases List.eq_nil_or_concat' elements with rfl | ⟨front, element, rfl⟩
  · exact ⟨vector, rfl, represents⟩
  · have isLast : vector.elementCount - 1 = front.length := by
      rw [represents.count]
      simp
    obtain ⟨vector', removed, represents'⟩ := represents.removeElementAt
    rw [List.getLast?_concat, elementOr, isLast]
    simp only [removed]
    exact ⟨vector', rfl, by simpa using represents'⟩

theorem Represents.push
    {vector : Vector object} {elements : List (Option object)}
    (represents : Represents vector elements)
    (room : Int → Bool)
    (item : Option object) :
    (push room item vector = (.error .outOfMemory, vector) ∧
        Refused room ((elements.length : Int) + 1)) ∨
      ∃ vector', push room item vector = (.ok item, vector') ∧
        Represents vector' (elements ++ [item]) := by
  simp only [Vectors.push]
  rcases represents.addElement room item with
    ⟨performed, refused⟩ | ⟨vector', performed, after⟩
  · left
    rw [performed]
    exact ⟨rfl, refused⟩
  · right
    rw [performed]
    exact ⟨vector', rfl, after⟩

theorem Tracks.pop (tracks : Tracks state listing) :
    Answers equals listing .pop (respond equals state .pop) := by
  obtain ⟨vector', performed, represents⟩ := tracks.vector.pop
  change Answers equals listing _ (state.after _ (Vectors.pop state.vector))
  rw [performed]
  exact .of_eq _ rfl ⟨represents, tracks.counts⟩

theorem Tracks.search (tracks : Tracks state listing) (o : Option object) :
    Answers equals listing (.search o) (respond equals state (.search o)) := by
  have searched : Vectors.search equals o state.vector =
      (.ok (if placeBefore equals listing.elements o listing.elements.length ≥ 0 then
        listing.elements.length - placeBefore equals listing.elements o listing.elements.length
      else -1), state.vector) := by
    rw [Vectors.search, tracks.lastIndexOf_whole]
    simp only [tracks.vector.count]
  exact tracks.unchanged searched rfl

/-! ### Every call -/

theorem Tracks.isEmpty (tracks : Tracks state listing) :
    (state.vector.elementCount == 0) = listing.elements.isEmpty := by
  rw [tracks.vector.count, Bool.eq_iff_iff, beq_iff_eq, List.isEmpty_iff_length_eq_zero]
  omega

theorem Tracks.respond (tracks : Tracks state listing) (call : Call object) :
    Answers equals listing call (respond equals state call) := by
  cases call with
  | size => exact .of_eq _ (by rw [tracks.vector.count]; rfl) tracks
  | isEmpty => exact .of_eq _ (by rw [tracks.isEmpty]; rfl) tracks
  | trimToSize room => exact tracks.trimToSize room
  | ensureCapacity room minCapacity => exact tracks.ensureCapacity room minCapacity
  | setSize room newSize => exact tracks.setSize room newSize
  | copyInto anArray => exact tracks.copyInto anArray
  | contains elem => exact tracks.unchanged (tracks.vector.contains equals elem) rfl
  | indexOf elem => exact tracks.unchanged (tracks.vector.indexOf equals elem 0) rfl
  | indexOfFrom elem index => exact tracks.indexOf elem index
  | lastIndexOf elem => exact tracks.unchanged (tracks.lastIndexOf_whole elem) rfl
  | lastIndexOfFrom elem index => exact tracks.lastIndexOf elem index
  | elementAt index => exact tracks.unchanged (tracks.vector.elementAt index) rfl
  | firstElement => exact tracks.unchanged tracks.vector.firstElement rfl
  | lastElement => exact tracks.unchanged tracks.vector.lastElement rfl
  | setElementAt obj index => exact tracks.setElementAt obj index
  | removeElementAt index => exact tracks.removeElementAt index
  | insertElementAt room obj index => exact tracks.insertElementAt room obj index
  | addElement room obj => exact tracks.grown () (tracks.vector.addElement room obj) rfl rfl
  | removeElement obj => exact tracks.changed (tracks.vector.removeElement equals obj) rfl
  | removeAllElements => exact tracks.changed tracks.vector.removeAllElements rfl
  | elements =>
      refine .of_eq { listing with counts := listing.counts ++ [0] } ?_
        ⟨tracks.vector, ?_⟩
      · simp [listCall, tracks.counts]
      · simp [tracks.counts]
  | hasMoreElements enumerator => exact tracks.hasMoreElements enumerator
  | nextElement enumerator => exact tracks.nextElement enumerator
  | push room item => exact tracks.grown item (tracks.vector.push room item) rfl rfl
  | pop => exact tracks.pop
  | peek => exact tracks.unchanged tracks.vector.peek rfl
  | empty => exact .of_eq _ (by rw [tracks.isEmpty]; rfl) tracks
  | search o => exact tracks.search o

end Answers

theorem new_represents
    {room : Int → Bool} {initialCapacity capacityIncrement : Int} {vector : Vector object}
    (created : new object room initialCapacity capacityIncrement = .ok vector) :
    Represents vector [] := by
  rw [new] at created
  split at created
  · cases created
  · next notNegative =>
      simp only [newArray] at created
      split at created
      · next granted =>
          simp only [Except.map, Except.ok.injEq] at created
          rw [← created]
          refine ⟨rfl, ⟨initialCapacity.toNat, rfl⟩, ?_⟩
          rw [List.length_replicate, Int.toNat_of_nonneg (Int.not_lt.mp notNegative)]
          exact granted.1
      · cases created

/-! ## Histories -/

/-- The elements of a vector, one after the other. -/
def toList (vector : Vector object) : List (Option object) :=
  vector.elementData.take vector.elementCount.toNat

theorem Represents.toList
    {vector : Vector object} {elements : List (Option object)}
    (represents : Represents vector elements) :
    toList vector = elements := by
  obtain ⟨spare, isData⟩ := represents.data
  rw [Vectors.toList, represents.count, isData, Int.toNat_natCast, List.take_left]

/-- The method changes no element. -/
def Call.looks : Call object → Bool
  | .setSize _ _ | .setElementAt _ _ | .removeElementAt _ | .insertElementAt _ _ _
  | .addElement _ _ | .removeElement _ | .removeAllElements | .push _ _ | .pop => false
  | _ => true

/-- Whatever was pushed is popped again, and no other call in between changes the vector. -/
inductive Balanced : List (Call object × Answer object) → Prop
  | nil : Balanced []
  | looks {call : Call object} {answer : Answer object}
      {history : List (Call object × Answer object)}
      (looks : call.looks = true)
      (rest : Balanced history) :
      Balanced ((call, answer) :: history)
  | thrown {call : Call object} {failure : Failure}
      {history : List (Call object × Answer object)}
      (rest : Balanced history) :
      Balanced ((call, .thrown failure) :: history)
  | nested {room : Int → Bool} {item : Option object} {popped : Answer object}
      {inner history : List (Call object × Answer object)}
      (inside : Balanced inner)
      (rest : Balanced history) :
      Balanced ((.push room item, .reference item) :: (inner ++ (.pop, popped) :: history))

section LastInFirstOut

variable {equals : object → Option object → Bool} {listing next final : Listing object}

theorem listCall_looks
    {call : Call object}
    (looks : call.looks = true) :
    (listCall equals listing call).2.elements = listing.elements := by
  cases call with
  | hasMoreElements enumerator =>
      rw [listCall]
      split <;> rfl
  | nextElement enumerator =>
      rw [listCall]
      split
      · rfl
      · split <;> rfl
  | setSize _ _ | setElementAt _ _ | removeElementAt _ | insertElementAt _ _ _ | addElement _ _
  | removeElement _ | removeAllElements | push _ _ | pop => cases looks
  | _ => rfl

theorem Listing.changed_thrown
    {inside : Prop} [Decidable inside] {elements : List (Option object)} {failure : Failure}
    (isThrown : (listing.changed inside elements).1 = .thrown failure) :
    (listing.changed inside elements).2 = listing := by
  by_cases holds : inside
  · rw [Listing.changed_of holds] at isThrown
    cases isThrown
  · rw [Listing.changed_of_not holds]

theorem listCall_thrown
    {call : Call object} {failure : Failure}
    (isThrown : (listCall equals listing call).1 = .thrown failure) :
    (listCall equals listing call).2.elements = listing.elements := by
  cases call with
  | setSize _ _ | setElementAt _ _ | removeElementAt _ | insertElementAt _ _ _ =>
      exact congrArg Listing.elements (Listing.changed_thrown isThrown)
  | addElement _ _ | removeElement _ | removeAllElements | push _ _ => cases isThrown
  | pop =>
      rcases List.eq_nil_or_concat' listing.elements with isNil | ⟨front, element, isConcat⟩
      · rw [listCall, isNil]
        rfl
      · rw [listCall, isConcat, List.getLast?_concat] at isThrown
        cases isThrown
  | _ => exact listCall_looks rfl

theorem Meets.looks
    {call : Call object} {answer : Answer object}
    (meets : Meets equals listing call answer next)
    (looks : call.looks = true) :
    next.elements = listing.elements := by
  cases meets with
  | performs => exact listCall_looks looks
  | refused asked refused => rfl

/-- A call that throws changes nothing. -/
theorem Meets.thrown
    {call : Call object} {failure : Failure}
    (meets : Meets equals listing call (.thrown failure) next) :
    next.elements = listing.elements := by
  generalize isThrown : Answer.thrown failure = answer at meets
  cases meets with
  | performs => exact listCall_thrown isThrown.symm
  | refused asked refused => rfl

theorem Meets.pushed
    {room : Int → Bool} {item : Option object}
    (meets : Meets equals listing (.push room item) (.reference item) next) :
    next.elements = listing.elements ++ [item] := by
  generalize isAnswer : Answer.reference item = answer at meets
  cases meets with
  | performs => rfl
  | refused asked refused => cases isAnswer

theorem Meets.popped
    {answer : Answer object} {front : List (Option object)} {item : Option object}
    (meets : Meets equals listing .pop answer next)
    (isConcat : listing.elements = front ++ [item]) :
    answer = .reference item ∧ next.elements = front := by
  cases meets with
  | performs =>
      constructor
      · rw [listCall, isConcat, List.getLast?_concat]
        rfl
      · change listing.elements.dropLast = front
        rw [isConcat, List.dropLast_concat]
  | refused asked refused => cases asked

/-- A balanced history leaves the elements as they are. -/
theorem Balanced.elements_eq
    {history : List (Call object × Answer object)}
    (balanced : Balanced history)
    (allows : Allows (Meets equals) listing history final) :
    final.elements = listing.elements := by
  induction balanced generalizing listing final with
  | nil =>
      cases allows with
      | nil => rfl
  | looks looks rest inductionHypothesis =>
      cases allows with
      | cons step after => rw [inductionHypothesis after, step.looks looks]
  | thrown rest inductionHypothesis =>
      cases allows with
      | cons step after => rw [inductionHypothesis after, step.thrown]
  | nested inside rest insideHypothesis restHypothesis =>
      cases allows with
      | cons step after =>
          obtain ⟨middle, within, behind⟩ := after.split
          cases behind with
          | cons pops last =>
              have above := (insideHypothesis within).trans step.pushed
              rw [restHypothesis last, (pops.popped above).2]

end LastInFirstOut

/-- A stack gives back what was pushed, and is as before, when the calls in between are balanced. -/
theorem pop_returns_pushed
    {room grows : Int → Bool} {initialCapacity capacityIncrement : Int} {vector : Vector object}
    (created : new object room initialCapacity capacityIncrement = .ok vector)
    (equals : object → Option object → Bool)
    (before inner : List (Call object))
    (item : Option object)
    {start pushed : State object}
    (isStart : stateAfter (respond equals) ⟨vector, []⟩ before = start)
    (isPushed : respond equals start (.push grows item) = (.reference item, pushed))
    (balanced : Balanced (historyOf (respond equals) pushed inner)) :
    (respond equals (stateAfter (respond equals) pushed inner) .pop).1 = .reference item ∧
      toList (respond equals (stateAfter (respond equals) pushed inner) .pop).2.vector =
        toList start.vector := by
  have step (state : State object) (listing : Listing object) (call : Call object)
      (tracks : Tracks state listing) : Answers equals listing call (respond equals state call) :=
    tracks.respond call
  have initial : Tracks ⟨vector, []⟩ ⟨[], []⟩ := ⟨new_represents created, rfl⟩
  obtain ⟨listing, _, tracks⟩ := refines step initial before
  rw [isStart] at tracks
  obtain ⟨longer, meets, tracks'⟩ := step start listing (.push grows item) tracks
  rw [isPushed] at meets tracks'
  obtain ⟨middle, allows, tracks''⟩ := refines step tracks' inner
  obtain ⟨final, pops, isFinal⟩ := step _ middle .pop tracks''
  have popped := pops.popped ((balanced.elements_eq allows).trans meets.pushed)
  exact ⟨popped.1, by rw [isFinal.vector.toList, tracks.vector.toList, popped.2]⟩

/-- The equality of numbers. -/
def sameNumber (number : Nat) (other : Option Nat) : Bool := other == some number

theorem single_created : new Nat (fun _ => true) 1 0 = .ok ⟨[none], 0, 0⟩ := by
  with_unfolding_all rfl

theorem pop_returns_pushed_grown :
    (respond sameNumber (stateAfter (respond sameNumber) ⟨⟨[some 1, some 2], 2, 0⟩, []⟩
        [.push (fun _ => true) (some 3), .peek, .pop, .search (some 1)]) .pop).1 =
          .reference (some 2) ∧
      toList (respond sameNumber (stateAfter (respond sameNumber) ⟨⟨[some 1, some 2], 2, 0⟩, []⟩
        [.push (fun _ => true) (some 3), .peek, .pop, .search (some 1)]) .pop).2.vector =
          toList ⟨[some 1], 1, 0⟩ := by
  have history : historyOf (respond sameNumber) ⟨⟨[some 1, some 2], 2, 0⟩, []⟩
      [.push (fun _ => true) (some 3), .peek, .pop, .search (some 1)] =
        [(.push (fun _ => true) (some 3), .reference (some 3)), (.peek, .reference (some 3)),
          (.pop, .reference (some 3)), (.search (some 1), .number 2)] := by
    with_unfolding_all rfl
  have isStart : stateAfter (respond sameNumber) ⟨⟨[none], 0, 0⟩, []⟩
      [.push (fun _ => true) (some 1)] = ⟨⟨[some 1], 1, 0⟩, []⟩ := by
    decide
  have isPushed : respond sameNumber ⟨⟨[some 1], 1, 0⟩, []⟩ (.push (fun _ => true) (some 2)) =
      (.reference (some 2), ⟨⟨[some 1, some 2], 2, 0⟩, []⟩) := by
    with_unfolding_all rfl
  refine pop_returns_pushed single_created sameNumber _ _ _ isStart isPushed ?_
  rw [history]
  exact .nested (.looks rfl .nil) (.looks rfl .nil)

end PicoJvm.Collections.Vectors
