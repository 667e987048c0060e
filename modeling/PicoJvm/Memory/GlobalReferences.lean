import Mathlib.Algebra.Group.Nat.Defs
import Mathlib.Data.List.Basic
import Mathlib.Data.List.Pairwise

/-!
# Global references

Native code keeps objects in two tables, one that keeps its objects alive and one that does not,
and knows them by handles that encode the table and the index. The tables grow when they are full,
and collections move the objects they refer to.
-/

namespace PicoJvm.Memory

/-! ## Pointers and handles -/

/-- A pointer to an object. -/
abbrev Oop := BitVec 32

/-- `WeakRefArray::unused`. -/
def unused : Oop :=
  BitVec.ofInt 32 (-1)

/-- `WeakRefArray::dead`. -/
def dead : Oop :=
  0

/-- `WeakRefArray::not_null_or_unused`. -/
def notNullOrUnused (obj : Oop) : Bool :=
  decide ((obj + 1).toNat > 1)

/-- `ReferenceType`. -/
inductive ReferenceType
  | strong | weak
  deriving DecidableEq, Repr

namespace ReferenceType

/-- `StrongGlobalRefType` and `WeakGlobalRefType`. -/
def bits : ReferenceType → BitVec 32
  | strong => 3
  | weak => 5

/-- What a free entry holds. -/
def free : ReferenceType → Oop
  | strong => 0
  | weak => unused

/-- A new table with room for as many references: `new_obj_array` and `WeakRefArray::create`. The
first element of a weak one is reserved for null references. -/
def create : ReferenceType → Nat → List Oop
  | strong, length => List.replicate length 0
  | weak, length => 0 :: List.replicate length unused

end ReferenceType

/-- The number that native code knows a reference by. -/
abbrev Ref := BitVec 32

/-- `make_reference`. -/
def makeReference (type : ReferenceType) (index : Nat) : Ref :=
  BitVec.ofNat 32 index <<< 3 ||| type.bits

/-- `get_reference_type`. -/
def getReferenceType (ref : Ref) : BitVec 32 :=
  ref &&& 7

/-- `get_reference_index`. -/
def getReferenceIndex (ref : Ref) : Nat :=
  (ref.sshiftRight 3).toNat

/-- `is_weak_reference`. -/
def isWeakReference (ref : Ref) : Bool :=
  decide (getReferenceType ref = ReferenceType.weak.bits)

/-- The table a reference is in: every reference that is not weak is taken for a strong one. -/
def tableOf (ref : Ref) : ReferenceType :=
  if isWeakReference ref then .weak else .strong

/-- What a creation that fails gives back. -/
def failure : Ref :=
  BitVec.ofInt 32 (-1)

/-! ## The tables -/

/-- The tables, and the heap: each object is known by a number, which it keeps when it is moved. -/
structure State where
  strongReferences : Option (List Oop)
  weakReferences : Option (List Oop)
  objects : List (Oop × Nat)
  deriving DecidableEq, Repr

/-- `get_reference_array`. -/
def State.referenceArray (state : State) : ReferenceType → Option (List Oop)
  | .strong => state.strongReferences
  | .weak => state.weakReferences

/-- `set_reference_array`. -/
def State.setReferenceArray (state : State) : ReferenceType → List Oop → State
  | .strong, array => { state with strongReferences := some array }
  | .weak, array => { state with weakReferences := some array }

/-! ## Collections -/

/-- What a collection decides: where it moves the objects it has marked. -/
structure Collection where
  destination : Oop → Option Oop

/-- `update_interior_pointer`. -/
def Collection.updateInteriorPointer (collection : Collection) (obj : Oop) : Oop :=
  (collection.destination obj).getD obj

/-- `WeakRefArray::clear_non_marked`. -/
def Collection.clearNonMarked (collection : Collection) (obj : Oop) : Oop :=
  if (collection.destination obj).isNone then dead else obj

/-- `WeakRefArray::oops_do`. -/
def oopsDo (doOop : Oop → Oop) (array : List Oop) : List Oop :=
  array.map fun obj => if notNullOrUnused obj then doOop obj else obj

/-- What a collection does to the tables and to the objects. -/
def Collection.collect (collection : Collection) (state : State) : State where
  strongReferences :=
    state.strongReferences.map fun array => array.map collection.updateInteriorPointer
  weakReferences :=
    state.weakReferences.map fun array =>
      oopsDo collection.updateInteriorPointer (oopsDo collection.clearNonMarked array)
  objects :=
    state.objects.filterMap fun (oop, object) =>
      (collection.destination oop).map fun moved => (moved, object)

/-- A collection marks what the table of strong references and the handles in use refer to, and
moves the marked objects to places of their own in the heap. -/
structure Collection.IsValid (collection : Collection) (state : State) (held : Oop) : Prop where
  inHeap :
    ∀ {oop moved}, collection.destination oop = some moved →
      notNullOrUnused oop = true ∧ notNullOrUnused moved = true
  apart :
    ∀ {oop other moved}, collection.destination oop = some moved →
      collection.destination other = some moved → oop = other
  marksStrong :
    ∀ {array}, state.strongReferences = some array →
      ∀ oop ∈ array, oop ≠ 0 → (collection.destination oop).isSome = true
  marksHeld : held ≠ 0 → (collection.destination held).isSome = true

/-! ## The operations -/

/-- How the allocation of a new table goes: it may collect, and it may fail. -/
structure Allocation where
  collection : Option Collection
  succeeds : Bool

/-- `generic_allocate_array` refuses long arrays. -/
def Allocation.ofLength (allocation : Allocation) (length : Nat) : Allocation :=
  if length ≤ 0x08000000 then allocation else { collection := none, succeeds := false }

/-- The tables and the heap after the allocation. -/
def Allocation.collect (allocation : Allocation) (state : State) : State :=
  match allocation.collection with
  | none => state
  | some collection => collection.collect state

/-- What a handle holds after the allocation. -/
def Allocation.update (allocation : Allocation) (held : Oop) : Oop :=
  match allocation.collection with
  | none => held
  | some collection => collection.updateInteriorPointer held

/-- The first free index. The first element is none. -/
def freeIndex (type : ReferenceType) (array : List Oop) : Nat :=
  (array.drop 1).findIdx (fun obj => decide (obj = type.free)) + 1

/-- The referent is put at an index of the array, which becomes the table. -/
def putReference (type : ReferenceType) (array : List Oop) (index : Nat) (referent : Oop)
    (state : State) : Ref × State :=
  (makeReference type index, state.setReferenceArray type (array.set index referent))

/-- A null referent takes no entry. -/
def putNull (type : ReferenceType) (array : List Oop) (state : State) : Ref × State :=
  (makeReference type 0, state.setReferenceArray type array)

/-- `register_strong_reference` and `register_weak_reference`. -/
def registerReference (type : ReferenceType) (referent : Oop) (allocation : Allocation)
    (state : State) : Ref × State :=
  match state.referenceArray type with
  | none =>
      let array := type.create 16
      let allocation := allocation.ofLength array.length
      let state := allocation.collect state
      if allocation.succeeds then
        if referent = 0 then
          putNull type array state
        else
          -- a new table has room
          putReference type array (freeIndex type array) (allocation.update referent) state
      else
        (failure, state)
  | some array =>
      if referent = 0 then
        putNull type array state
      else
        let index := freeIndex type array
        if index < array.length then
          putReference type array index referent state
        else
          let created := type.create (array.length * 2)
          let allocation := allocation.ofLength created.length
          let state := allocation.collect state
          if allocation.succeeds then
            -- the handle of the table sees what the collection has made of it
            let copied := ((state.referenceArray type).getD []) ++ created.drop array.length
            putReference type copied index (allocation.update referent) state
          else
            (failure, state)

def registerStrongReference : Oop → Allocation → State → Ref × State :=
  registerReference .strong

def registerWeakReference : Oop → Allocation → State → Ref × State :=
  registerReference .weak

/-- `register_global_ref_object`. -/
def registerGlobalRefObject (referent : Oop) (type : ReferenceType) (allocation : Allocation)
    (state : State) : Ref × State :=
  match type with
  | .weak => registerWeakReference referent allocation state
  | .strong => registerStrongReference referent allocation state

/-- `unregister_strong_reference` and `unregister_weak_reference`. -/
def unregisterReference (type : ReferenceType) (ref : Ref) (state : State) : State :=
  match state.referenceArray type with
  | none => state
  | some array => state.setReferenceArray type (array.set (getReferenceIndex ref) type.free)

def unregisterStrongReference : Ref → State → State :=
  unregisterReference .strong

def unregisterWeakReference : Ref → State → State :=
  unregisterReference .weak

/-- `unregister_global_ref_object`. -/
def unregisterGlobalRefObject (ref : Ref) (state : State) : State :=
  if isWeakReference ref then
    unregisterWeakReference ref state
  else
    unregisterStrongReference ref state

/-- `get_global_ref_object`. -/
def getGlobalRefObject (ref : Ref) (state : State) : Option Oop :=
  (state.referenceArray (tableOf ref)).bind fun array => array[getReferenceIndex ref]?

/-! ## Encoded references -/

section Encoding

variable {type other : ReferenceType} {index index' : Nat}

theorem makeReference_toNat (small : index < 2 ^ 27) :
    (makeReference type index).toNat = index * 8 + type.bits.toNat := by
  have shifted : (BitVec.ofNat 32 index <<< 3).toNat = index <<< 3 := by
    rw [BitVec.toNat_shiftLeft, BitVec.toNat_ofNat, Nat.shiftLeft_eq, Nat.shiftLeft_eq]
    omega
  have low : type.bits.toNat < 2 ^ 3 := by
    cases type <;> decide
  rw [makeReference, BitVec.toNat_or, shifted, ← Nat.shiftLeft_add_eq_or_of_lt low,
    Nat.shiftLeft_eq]

theorem bits_lt (type : ReferenceType) : type.bits.toNat < 8 := by
  cases type <;> decide

theorem getReferenceType_makeReference (small : index < 2 ^ 27) :
    getReferenceType (makeReference type index) = type.bits := by
  have low := bits_lt type
  apply BitVec.eq_of_toNat_eq
  rw [getReferenceType, BitVec.toNat_and, makeReference_toNat small]
  change _ &&& (2 ^ 3 - 1) = _
  rw [Nat.and_two_pow_sub_one_eq_mod]
  omega

@[simp] theorem tableOf_makeReference (small : index < 2 ^ 27) :
    tableOf (makeReference type index) = type := by
  rw [tableOf, isWeakReference, getReferenceType_makeReference small]
  cases type <;> rfl

/-- References that are created are no negative numbers. -/
theorem makeReference_msb (small : index < 2 ^ 27) : (makeReference type index).msb = false := by
  have low := bits_lt type
  rw [BitVec.msb_eq_false_iff_two_mul_lt, makeReference_toNat small]
  omega

@[simp] theorem getReferenceIndex_makeReference (small : index < 2 ^ 27) :
    getReferenceIndex (makeReference type index) = index := by
  have low := bits_lt type
  rw [getReferenceIndex, BitVec.sshiftRight_eq_of_msb_false (makeReference_msb small),
    BitVec.toNat_ushiftRight, makeReference_toNat small, Nat.shiftRight_eq_div_pow]
  omega

theorem makeReference_inj
    (small : index < 2 ^ 27)
    (small' : index' < 2 ^ 27)
    (same : makeReference type index = makeReference other index') :
    type = other ∧ index = index' := by
  have sameTable : tableOf (makeReference type index) = type := tableOf_makeReference small
  have sameIndex : getReferenceIndex (makeReference type index) = index :=
    getReferenceIndex_makeReference small
  rw [same] at sameTable sameIndex
  rw [tableOf_makeReference small'] at sameTable
  rw [getReferenceIndex_makeReference small'] at sameIndex
  exact ⟨sameTable.symm, sameIndex.symm⟩

theorem getGlobalRefObject_makeReference (small : index < 2 ^ 27) (state : State) :
    getGlobalRefObject (makeReference type index) state =
      (state.referenceArray type).bind fun array => array[index]? := by
  rw [getGlobalRefObject, tableOf_makeReference small, getReferenceIndex_makeReference small]

end Encoding

end PicoJvm.Memory
