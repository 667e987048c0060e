import Mathlib.Data.List.Basic
import PicoJvm.Lib.Marking

/-!
# Finalizers and weak references

The objects with native finalizers are on a list. A collection marks what the roots reach, takes the
objects of the list that are not marked off it, keeps what these refer to, clears the weak references
and runs the finalizers once the objects have been moved.
-/

namespace PicoJvm.Finalization

open PicoJvm.Lib.Marking

/-! ## The heap -/

/-- An object. It is known by a number that it keeps when it is moved. -/
structure Obj where
  object : Nat
  address : Nat
  size : Nat
  /-- It is a cell of a list of finalizers. -/
  isCons : Bool
  fields : List Nat
  deriving DecidableEq, Repr

/-- `FinalizerConsDesc`: where the cell lies, and its referent. -/
structure FinalizerCons where
  cell : Nat
  referent : Nat
  deriving DecidableEq, Repr

/-- An element of a `WeakRefArray`. -/
inductive WeakEntry
  | unused
  | dead
  | refers (object : Nat)
  deriving DecidableEq, Repr

/-- The heap in the order of the addresses, the roots, the lists, and the weak references. The
objects that have been registered and the runs of finalizers are noted. -/
structure State where
  objects : List Obj
  roots : List Nat
  finalizerReachable : List FinalizerCons
  finalizerPending : List FinalizerCons
  weakReferences : List WeakEntry
  born : Nat
  registered : List Nat
  finalized : List Nat
  deriving DecidableEq, Repr

namespace State

/-- The heap before anything has been allocated. -/
def initial : State where
  objects := []
  roots := []
  finalizerReachable := []
  finalizerPending := []
  weakReferences := []
  born := 0
  registered := []
  finalized := []

def find (state : State) (object : Nat) : Option Obj :=
  state.objects.find? fun obj => decide (obj.object = object)

/-- What an object refers to. -/
def edges (state : State) (object : Nat) : List Nat :=
  ((state.find object).map Obj.fields).getD []

def address (state : State) (object : Nat) : Nat :=
  ((state.find object).map Obj.address).getD 0

/-- The objects of the collection area, which begins at `bottom`. -/
def area (state : State) (bottom : Nat) : List Nat :=
  (state.objects.filter fun obj => decide (bottom ≤ obj.address)).map Obj.object

/-- The objects in front of the collection area: they are not collected, and what they refer to is
remembered. -/
def outside (state : State) (bottom : Nat) : List Nat :=
  (state.objects.filter fun obj => !decide (bottom ≤ obj.address)).map Obj.object

end State

/-! ## Marking -/

/-- `discover_finalizer_reachable_objects`, from a cell of the list on. -/
def discoverFinalizerReachableObjects (bottom : Nat) (address : Nat → Nat) (marked : List Nat) :
    (list pending : List FinalizerCons) → List FinalizerCons × List FinalizerCons
  | [], pending => ([], pending)
  | cons :: rest, pending =>
      if bottom ≤ address cons.referent then
        if cons.referent ∈ marked then
          let (reachable, pending) :=
            discoverFinalizerReachableObjects bottom address marked rest pending
          (cons :: reachable, pending)
        else
          discoverFinalizerReachableObjects bottom address marked rest (cons :: pending)
      else
        (cons :: rest, pending)

/-- `finalizer_oops_do` goes over the cells and their referents. -/
def finalizerOops (list : List FinalizerCons) : List Nat :=
  list.flatMap fun cons => [cons.cell, cons.referent]

def referents (list : List FinalizerCons) : List Nat :=
  list.map FinalizerCons.referent

/-- `unmark_pending_finalizers`. -/
def unmarkPendingFinalizers (pending : List FinalizerCons) (marked : List Nat) : List Nat :=
  marked.filter fun object => decide (object ∉ referents pending)

/-- `WeakRefArray::clear_non_marked`, called by `WeakRefArray::oops_do`. -/
def clearNonMarked (area marked : List Nat) : WeakEntry → WeakEntry
  | .refers object => if object ∈ area ∧ object ∉ marked then .dead else .refers object
  | entry => entry

/-- What `mark_objects` leaves. -/
structure Marks where
  marked : List Nat
  reachable : List FinalizerCons
  pending : List FinalizerCons
  weakReferences : List WeakEntry

/-- What is marked from the roots and from what is remembered. -/
def rooted (bottom : Nat) (state : State) : List Nat :=
  mark state.edges (state.area bottom) []
    (state.roots ++ (state.outside bottom).flatMap state.edges)

/-- The list of what stays reachable, and the list of what becomes pending. -/
def discovered (bottom : Nat) (state : State) : List FinalizerCons × List FinalizerCons :=
  discoverFinalizerReachableObjects bottom state.address (rooted bottom state)
    state.finalizerReachable []

/-- What is marked once `mark_finalizers` has gone over both lists. -/
def kept (bottom : Nat) (state : State) : List Nat :=
  let lists := discovered bottom state
  mark state.edges (state.area bottom)
    (mark state.edges (state.area bottom) (rooted bottom state) (finalizerOops lists.1))
    (finalizerOops lists.2)

/-- `mark_objects`, of the area from `bottom` on. -/
def markObjects (bottom : Nat) (state : State) : Marks :=
  let lists := discovered bottom state
  -- just the pending objects are unmarked, not what they refer to
  let unmarked := unmarkPendingFinalizers lists.2 (kept bottom state)
  { reachable := lists.1
    pending := lists.2
    weakReferences := state.weakReferences.map (clearNonMarked (state.area bottom) unmarked)
    marked := mark state.edges (state.area bottom) unmarked (finalizerOops lists.2) }

/-! ## Collections -/

/-- Objects are slid down to an address, one after the other. -/
def slide : (start : Nat) → List Obj → List Obj
  | _, [] => []
  | start, obj :: rest => { obj with address := start } :: slide (start + obj.size) rest

/-- `compact_objects`: the marked objects of the area go to `start`. -/
def compactObjects (bottom start : Nat) (marked : List Nat) (objects : List Obj) : List Obj :=
  (objects.filter fun obj => !decide (bottom ≤ obj.address)) ++
    slide start (objects.filter fun obj => decide (bottom ≤ obj.address ∧ obj.object ∈ marked))

/-- `finalize` runs the finalizers of a list, from its first cell on. -/
def finalize : List FinalizerCons → List Nat → List Nat
  | [], finalized => finalized
  | cons :: rest, finalized => finalize rest (finalized ++ [cons.referent])

/-- Where the collection area begins, and where the objects of it go. -/
structure Collection where
  bottom : Nat
  start : Nat
  deriving DecidableEq, Repr

/-- `internal_collect`. What native finalizers do to the heap is left to the mutations that
follow. -/
def internalCollect (collection : Collection) (state : State) : State :=
  let marks := markObjects collection.bottom state
  { state with
    objects := compactObjects collection.bottom collection.start marks.marked state.objects
    finalizerReachable := marks.reachable
    finalizerPending := []
    weakReferences := marks.weakReferences
    finalized := finalize marks.pending state.finalized }

/-- The objects go behind what is not collected. -/
def Collection.IsValid (collection : Collection) (state : State) : Prop :=
  ∀ obj ∈ state.objects, obj.address < collection.bottom →
    obj.address + obj.size ≤ collection.start

/-! ## Allocation and registration -/

/-- An object is allocated behind the others, and a handle of it is a root. -/
def allocate (address size : Nat) (state : State) : State :=
  { state with
    objects :=
      state.objects ++
        [{ object := state.born, address := address, size := size, isCons := false, fields := [] }]
    roots := state.born :: state.roots
    born := state.born + 1 }

/-- `register_finalizer_reachable_object`, once there is a cell. -/
def registerFinalizerReachableObject (referent address size : Nat) (state : State) : State :=
  { state with
    objects :=
      state.objects ++
        [{ object := state.born, address := address, size := size, isCons := true, fields := [] }]
    finalizerReachable := { cell := state.born, referent := referent } :: state.finalizerReachable
    born := state.born + 1
    registered := referent :: state.registered }

/-- There is room at an address, behind all objects. -/
def State.HasRoom (state : State) (address size : Nat) : Prop :=
  0 < size ∧ ∀ obj ∈ state.objects, obj.address + obj.size ≤ address

/-- `Universe::new_instance` of a class with a finalizer, up to the allocation of the cell: that may
collect. -/
def newInstance (address size : Nat) (collection : Option Collection) (state : State) : State :=
  match collection with
  | none => allocate address size state
  | some collection => internalCollect collection (allocate address size state)

/-- The collection of an allocation is a valid one. -/
def IsValidFor (collection : Option Collection) (state : State) : Prop :=
  ∀ made, collection = some made → made.IsValid state

/-! ## Runs -/

/-- An object of the program, and no cell. -/
def State.Has (state : State) (object : Nat) : Prop :=
  ∃ obj ∈ state.objects, obj.object = object ∧ obj.isCons = false

/-- What the program makes of the roots, the fields and the weak references. -/
def mutate (roots : List Nat) (fields : Nat → List Nat) (weakReferences : List WeakEntry)
    (state : State) : State :=
  { state with
    objects :=
      state.objects.map fun obj =>
        if obj.isCons then obj else { obj with fields := fields obj.object }
    roots := roots
    weakReferences := weakReferences }

/-- The steps: allocations, registrations, mutations and collections. -/
inductive Step : State → State → Prop
  | allocate (state : State) (address size : Nat) :
      state.HasRoom address size → Step state (allocate address size state)
  | newInstance (state : State) (address size cellAddress cellSize : Nat)
      (collection : Option Collection) :
      state.HasRoom address size → IsValidFor collection (Finalization.allocate address size state) →
        (newInstance address size collection state).HasRoom cellAddress cellSize →
          Step state
            (registerFinalizerReachableObject state.born cellAddress cellSize
              (newInstance address size collection state))
  | mutate (state : State) (roots : List Nat) (fields : Nat → List Nat)
      (weakReferences : List WeakEntry) :
      (∀ root ∈ roots, state.Has root) → (∀ object, ∀ field ∈ fields object, state.Has field) →
        (∀ object, .refers object ∈ weakReferences → state.Has object) →
          Step state (mutate roots fields weakReferences state)
  | collect (state : State) (collection : Collection) :
      collection.IsValid state → Step state (internalCollect collection state)

/-- What there is after any number of steps. -/
inductive Runs : State → Prop
  | initial : Runs State.initial
  | step {state next : State} : Runs state → Step state next → Runs next

/-! ## What is to hold -/

/-- What a collection is to do. -/
structure CollectionHolds (state : State) (collection : Collection) (newly : List Nat) : Prop where
  /-- The finalizers of some objects are run, each once. -/
  runs : (internalCollect collection state).finalized = state.finalized ++ newly
  once : newly.Nodup
  /-- They are the registered ones that are not reached from the roots, nor from what is not
  collected. -/
  unreached :
    ∀ object, object ∈ newly ↔
      object ∈ referents state.finalizerReachable ∧ object ∈ state.area collection.bottom ∧
        ¬ Reachable state.edges (state.roots ++ state.outside collection.bottom) object
  /-- All that they reach is still there when they run. -/
  valid :
    ∀ object, Reachable state.edges newly object →
      (internalCollect collection state).Has object ∧
        (internalCollect collection state).edges object = state.edges object

/-- A weak reference is cleared if and only if its referent is not reached from the roots. -/
def ClearsUnreached (state : State) (collection : Collection) : Prop :=
  ∀ (index object : Nat), state.weakReferences[index]? = some (WeakEntry.refers object) →
    ((internalCollect collection state).weakReferences[index]? = some WeakEntry.dead ↔
      ¬ Reachable state.edges state.roots object)

/-- A weak reference is cleared if and only if its referent is collected and has just been found
not to be reached itself, or is reached neither from the roots, nor from what is not collected, nor
from the objects whose finalizers are run. -/
def ClearsUnkept (state : State) (collection : Collection) (newly : List Nat) : Prop :=
  ∀ (index object : Nat), state.weakReferences[index]? = some (WeakEntry.refers object) →
    ((internalCollect collection state).weakReferences[index]? = some WeakEntry.dead ↔
      object ∈ state.area collection.bottom ∧
        (object ∈ newly ∨
          ¬ Reachable state.edges
            (state.roots ++ state.outside collection.bottom ++ newly) object))

/-- What holds after any number of steps. -/
structure FinalizationHolds (state : State) : Prop where
  /-- Registered objects are on the list until their finalizer is run, once. -/
  once :
    ∀ object ∈ state.registered,
      state.finalized.count object = if object ∈ referents state.finalizerReachable then 0 else 1
  registered : ∀ object ∈ state.finalized, object ∈ state.registered
  /-- What they reach is there. -/
  valid :
    ∀ object, Reachable state.edges (referents state.finalizerReachable) object → state.Has object
  ordered :
    (referents state.finalizerReachable).Pairwise fun first second =>
      state.address second < state.address first
  collects :
    ∀ collection, collection.IsValid state →
      ∃ newly, CollectionHolds state collection newly ∧ ClearsUnkept state collection newly

end PicoJvm.Finalization
