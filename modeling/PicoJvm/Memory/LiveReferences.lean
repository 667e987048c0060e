import PicoJvm.Memory.ReferenceTables

/-!
# Handles of global references in use

What native code can rely on while it creates and destroys global references and the collector
moves the objects.
-/

namespace PicoJvm.Memory

/-! ## Runs -/

/-- A handle that has been created and not been destroyed, and what it was created for. -/
structure Handle where
  ref : Ref
  type : ReferenceType
  referent : Option Nat
  deriving DecidableEq, Repr

/-- The tables, the handles in use, and the number of objects there have been. -/
structure System where
  state : State
  live : List Handle
  born : Nat
  deriving DecidableEq, Repr

namespace System

/-- No table has been made, and there is no object. -/
def initial : System where
  state :=
    { strongReferences := none
      weakReferences := none
      objects := [] }
  live := []
  born := 0

/-- An object is allocated. -/
def allocated (system : System) (oop : Oop) : System :=
  { system with
    state := { system.state with objects := (oop, system.born) :: system.state.objects }
    born := system.born + 1 }

def collected (system : System) (collection : Collection) : System :=
  { system with state := collection.collect system.state }

/-- A reference is created. A negative number is no handle. -/
def created (system : System) (oop : Oop) (referent : Option Nat) (type : ReferenceType)
    (allocation : Allocation) : System :=
  let (ref, state) := registerGlobalRefObject oop type allocation system.state
  if ref.msb then
    { system with state := state }
  else
    { system with
      state := state
      live := { ref := ref, type := type, referent := referent } :: system.live }

def destroyed (system : System) (handle : Handle) : System :=
  { system with
    state := unregisterGlobalRefObject handle.ref system.state
    live := system.live.erase handle }

end System

/-- A collection the allocation makes is a valid one. -/
def Allocation.IsValid (allocation : Allocation) (state : State) (held : Oop) : Prop :=
  ∀ {collection}, allocation.collection = some collection → collection.IsValid state held

/-- What a pointer that is handed over stands for: null for nothing. -/
def State.Holds (state : State) (oop : Oop) : Option Nat → Prop
  | none => oop = 0
  | some object => (oop, object) ∈ state.objects

/-- The steps of native code, of the program and of the collector. -/
inductive Step : System → System → Prop
  | allocate (system : System) (oop : Oop) :
      notNullOrUnused oop = true → (∀ object, (oop, object) ∉ system.state.objects) →
        Step system (system.allocated oop)
  | collect (system : System) (collection : Collection) :
      collection.IsValid system.state 0 → Step system (system.collected collection)
  | create (system : System) (oop : Oop) (referent : Option Nat) (type : ReferenceType)
      (allocation : Allocation) :
      system.state.Holds oop referent → allocation.IsValid system.state oop →
        Step system (system.created oop referent type allocation)
  | destroy (system : System) (handle : Handle) :
      handle ∈ system.live → Step system (system.destroyed handle)

/-- What there is after any number of steps. -/
inductive Reachable : System → Prop
  | initial : Reachable System.initial
  | step {system next : System} : Reachable system → Step system next → Reachable next

/-! ## What is to hold -/

/-- The handle gives back what it was created for, or null if that was only weakly referred to and
has died. -/
def Handle.GivesBack (handle : Handle) (state : State) : Prop :=
  ∃ oop, getGlobalRefObject handle.ref state = some oop ∧
    (state.Holds oop handle.referent ∨
      handle.type = .weak ∧ oop = 0 ∧
        ∀ object, handle.referent = some object → ∀ other, (other, object) ∉ state.objects)

/-- What holds of handles in use. -/
structure HandlesHold (state : State) (handles : List Handle) : Prop where
  given : ∀ handle ∈ handles, handle.GivesBack state
  distinct : handles.Pairwise fun handle other => handle.ref ≠ other.ref
  /-- To destroy a handle leaves what the others give. -/
  destroyed :
    ∀ handle ∈ handles, ∀ other ∈ handles, other.ref ≠ handle.ref →
      getGlobalRefObject other.ref (unregisterGlobalRefObject handle.ref state) =
        getGlobalRefObject other.ref state
  /-- To create one leaves what they give too, but for what the collector does. -/
  kept :
    ∀ handle ∈ handles, ∀ oop type (allocation : Allocation), allocation.IsValid state oop →
      ∃ collects : Bool,
        getGlobalRefObject handle.ref (registerGlobalRefObject oop type allocation state).2 =
          getGlobalRefObject handle.ref (allocation.collectIf collects state)
  /-- A creation that fails gives −1 and changes nothing, but for what the collector does. -/
  failed :
    ∀ oop type allocation,
      (registerGlobalRefObject oop type allocation state).1.msb = true →
        (registerGlobalRefObject oop type allocation state).1 = failure ∧
          ∃ collects : Bool,
            (registerGlobalRefObject oop type allocation state).2 =
              allocation.collectIf collects state

/-- The handles that were created for objects. -/
def System.objectHandles (system : System) : List Handle :=
  system.live.filter fun handle => handle.referent.isSome

/-! ## The invariant -/

/-- The entry for an object: the object itself, or null if that was only weakly referred to and has
died. -/
def IsEntryOf (oop : Oop) (type : ReferenceType) (state : State) (object : Nat) : Prop :=
  (oop, object) ∈ state.objects ∨
    type = .weak ∧ oop = 0 ∧ ∀ other, (other, object) ∉ state.objects

/-- A handle for an object has an index that is not reserved, and there an entry for the object. -/
def Handle.IsEntered (handle : Handle) (state : State) (object : Nat) : Prop :=
  ∃ index oop,
    0 < index ∧ index < 2 ^ 27 ∧ handle.ref = makeReference handle.type index ∧
      getGlobalRefObject handle.ref state = some oop ∧ IsEntryOf oop handle.type state object

/-- The objects in the heap, each at a place of its own. -/
structure State.IsHeap (state : State) (born : Nat) : Prop where
  inHeap : ∀ {oop object}, (oop, object) ∈ state.objects → notNullOrUnused oop = true
  older : ∀ {oop object}, (oop, object) ∈ state.objects → object < born
  once :
    ∀ {oop other object}, (oop, object) ∈ state.objects → (other, object) ∈ state.objects →
      oop = other
  alone :
    ∀ {oop object object'}, (oop, object) ∈ state.objects → (oop, object') ∈ state.objects →
      object = object'

/-- What holds throughout a run. -/
structure System.Invariant (system : System) : Prop where
  heap : system.state.IsHeap system.born
  tables : system.state.HasTables
  entered :
    ∀ handle ∈ system.live, ∀ object, handle.referent = some object →
      object < system.born ∧ handle.IsEntered system.state object
  reserved :
    ∀ handle ∈ system.live, handle.referent = none → handle.ref = makeReference handle.type 0
  distinct : system.objectHandles.Pairwise fun handle other => handle.ref ≠ other.ref

section Preserved

variable {state : State} {born : Nat} {collection : Collection} {held : Oop}

theorem State.IsHeap.collect
    (isHeap : state.IsHeap born)
    (isValid : collection.IsValid state held) :
    (collection.collect state).IsHeap born where
  inHeap listed := by
    obtain ⟨oop, _, goes⟩ := mem_objects_collect.mp listed
    exact (isValid.inHeap goes).2
  older listed := by
    obtain ⟨oop, before, _⟩ := mem_objects_collect.mp listed
    exact isHeap.older before
  once listed listed' := by
    obtain ⟨oop, before, goes⟩ := mem_objects_collect.mp listed
    obtain ⟨other, before', goes'⟩ := mem_objects_collect.mp listed'
    cases isHeap.once before before'
    exact Option.some.inj (goes.symm.trans goes')
  alone listed listed' := by
    obtain ⟨oop, before, goes⟩ := mem_objects_collect.mp listed
    obtain ⟨other, before', goes'⟩ := mem_objects_collect.mp listed'
    cases isValid.apart goes goes'
    exact isHeap.alone before before'

/-- What a collection makes of the entry for an object. -/
theorem IsEntryOf.collect
    {type : ReferenceType}
    {oop : Oop}
    {object : Nat}
    (isEntry : IsEntryOf oop type state object)
    (isHeap : state.IsHeap born)
    (isValid : collection.IsValid state held)
    (inTable : ∀ array, state.referenceArray type = some array → oop ∈ array)
    (hasTable : (state.referenceArray type).isSome = true) :
    IsEntryOf (collection.newEntry type oop) type (collection.collect state) object := by
  have stayDead :
      (∀ other, (other, object) ∈ state.objects → collection.destination other = none) →
        ∀ other, (other, object) ∉ (collection.collect state).objects := by
    intro noneGoes other listed
    obtain ⟨before, wasListed, goes⟩ := mem_objects_collect.mp listed
    rw [noneGoes before wasListed] at goes
    cases goes
  obtain alive | ⟨isWeak, isNull, isDead⟩ := isEntry
  · have inHeap := isHeap.inHeap alive
    cases goes : collection.destination oop with
    | some moved =>
        rw [newEntry_marked inHeap goes]
        exact Or.inl (mem_objects_collect.mpr ⟨oop, alive, goes⟩)
    | none =>
        cases type with
        | strong =>
            obtain ⟨array, isTable⟩ := Option.isSome_iff_exists.mp hasTable
            have marked :=
              isValid.marksStrong isTable oop (inTable array isTable) (ne_zero_of_isHeap inHeap)
            rw [goes] at marked
            cases marked
        | weak =>
            rw [newEntry_unmarked inHeap goes]
            refine Or.inr ⟨rfl, rfl, stayDead ?_⟩
            intro other listed
            rw [isHeap.once listed alive]
            exact goes
  · rw [isWeak, isNull, newEntry_dead]
    exact Or.inr ⟨rfl, rfl, stayDead fun other listed => absurd listed (isDead other)⟩

theorem Handle.IsEntered.collect
    {handle : Handle}
    {object : Nat}
    (isEntered : handle.IsEntered state object)
    (isHeap : state.IsHeap born)
    (isValid : collection.IsValid state held) :
    handle.IsEntered (collection.collect state) object := by
  obtain ⟨index, oop, positive, small, isRef, given, isEntry⟩ := isEntered
  refine ⟨index, collection.newEntry handle.type oop, positive, small, isRef, ?_, ?_⟩
  · rw [isRef, getGlobalRefObject_collect small, ← isRef, given]
    rfl
  · rw [isRef, getGlobalRefObject_makeReference small, Option.bind_eq_some_iff] at given
    obtain ⟨array, isTable, found⟩ := given
    apply isEntry.collect isHeap isValid
    · intro other isOther
      rw [isTable] at isOther
      cases isOther
      exact List.mem_of_getElem? found
    · rw [isTable]
      rfl

theorem IsEntryOf.ne_free
    {type : ReferenceType}
    {oop : Oop}
    {object : Nat}
    (isEntry : IsEntryOf oop type state object)
    (isHeap : state.IsHeap born) :
    oop ≠ type.free := by
  obtain alive | ⟨rfl, rfl, _⟩ := isEntry
  · exact ne_free_of_isHeap (isHeap.inHeap alive)
  · decide

section Registered

variable {handle : Handle} {object index : Nat} {type : ReferenceType} {oop : Oop}
  {allocation : Allocation} {result : Ref × State} {collects : Bool} {array : List Oop}

/-- What is put into a table has another number than the handles that are entered. -/
theorem Handle.IsEntered.ref_ne
    (isEntered : handle.IsEntered (allocation.collectIf collects state) object)
    (isHeap : (allocation.collectIf collects state).IsHeap born)
    (registered : Registered type oop allocation state result collects index array) :
    handle.ref ≠ result.1 := by
  obtain ⟨index', entry, positive, small, isRef, given, isEntry⟩ := isEntered
  have bound : index < 2 ^ 27 := Nat.lt_of_lt_of_le registered.inside registered.small
  intro same
  rw [isRef, registered.ref] at same
  obtain ⟨sameType, rfl⟩ := makeReference_inj small bound same
  subst sameType
  have notNull : oop ≠ 0 := by
    intro isNull
    rw [registered.reserved isNull] at positive
    exact absurd positive (Nat.lt_irrefl 0)
  rw [isRef, getGlobalRefObject_makeReference small, Option.bind_eq_some_iff] at given
  obtain ⟨table, isTable, found⟩ := given
  exact isEntry.ne_free isHeap (registered.vacant notNull isTable found)

/-- What is put into a table leaves the entries of the handles that are entered. -/
theorem Handle.IsEntered.getGlobalRefObject_registered
    (isEntered : handle.IsEntered (allocation.collectIf collects state) object)
    (isHeap : (allocation.collectIf collects state).IsHeap born)
    (registered : Registered type oop allocation state result collects index array)
    {entry : Oop}
    (given : getGlobalRefObject handle.ref (allocation.collectIf collects state) = some entry) :
    getGlobalRefObject handle.ref result.2 = some entry := by
  have different := isEntered.ref_ne isHeap registered
  obtain ⟨index', _, _, small, isRef, _, _⟩ := isEntered
  rw [isRef] at given ⊢
  apply registered.getGlobalRefObject_kept small _ given
  rintro sameType rfl
  rw [isRef, registered.ref, sameType] at different
  exact different rfl

theorem Handle.IsEntered.registered
    (isEntered : handle.IsEntered (allocation.collectIf collects state) object)
    (isHeap : (allocation.collectIf collects state).IsHeap born)
    (registered : Registered type oop allocation state result collects index array) :
    handle.IsEntered result.2 object := by
  obtain ⟨index', entry, positive, small, isRef, given, isEntry⟩ := isEntered
  refine ⟨index', entry, positive, small, isRef, ?_, ?_⟩
  · exact Handle.IsEntered.getGlobalRefObject_registered
      ⟨index', entry, positive, small, isRef, given, isEntry⟩ isHeap registered given
  · rw [registered.put]
    simpa [IsEntryOf] using isEntry

end Registered

theorem Handle.IsEntered.unregister
    {handle : Handle}
    {object index : Nat}
    {type : ReferenceType}
    (isEntered : handle.IsEntered state object)
    (small : index < 2 ^ 27)
    (different : handle.ref ≠ makeReference type index) :
    handle.IsEntered (unregisterGlobalRefObject (makeReference type index) state) object := by
  obtain ⟨index', entry, positive, small', isRef, given, isEntry⟩ := isEntered
  refine ⟨index', entry, positive, small', isRef, ?_, ?_⟩
  · rw [isRef] at given different ⊢
    rw [getGlobalRefObject_unregister small small' different]
    exact given
  · rw [IsEntryOf, objects_unregister small]
    exact isEntry

end Preserved

/-! ## Steps -/

section Steps

variable {system : System}

theorem mem_objectHandles {handle : Handle} :
    handle ∈ system.objectHandles ↔
      handle ∈ system.live ∧ ∃ object, handle.referent = some object := by
  rw [System.objectHandles, List.mem_filter, Option.isSome_iff_exists]

/-- A handle in use has an index that arrays can have. -/
theorem System.Invariant.ref_eq
    (invariant : system.Invariant)
    {handle : Handle}
    (isLive : handle ∈ system.live) :
    ∃ index, index < 2 ^ 27 ∧ handle.ref = makeReference handle.type index := by
  cases isReferent : handle.referent with
  | none =>
      exact ⟨0, by decide, invariant.reserved handle isLive isReferent⟩
  | some object =>
      obtain ⟨_, index, _, _, small, isRef, _⟩ := invariant.entered handle isLive object isReferent
      exact ⟨index, small, isRef⟩

theorem System.Invariant.allocated
    (invariant : system.Invariant)
    {oop : Oop}
    (inHeap : notNullOrUnused oop = true)
    (unoccupied : ∀ object, (oop, object) ∉ system.state.objects) :
    (system.allocated oop).Invariant where
  heap :=
    { inHeap := by
        intro other object listed
        rcases List.mem_cons.mp listed with same | before
        · cases same
          exact inHeap
        · exact invariant.heap.inHeap before
      older := by
        intro other object listed
        rcases List.mem_cons.mp listed with same | before
        · cases same
          exact Nat.lt_succ_self _
        · exact Nat.lt_succ_of_lt (invariant.heap.older before)
      once := by
        intro first second object listed listed'
        rcases List.mem_cons.mp listed with same | before <;>
          rcases List.mem_cons.mp listed' with same' | before'
        · cases same
          cases same'
          rfl
        · cases same
          exact absurd (invariant.heap.older before') (Nat.lt_irrefl _)
        · cases same'
          exact absurd (invariant.heap.older before) (Nat.lt_irrefl _)
        · exact invariant.heap.once before before'
      alone := by
        intro place first second listed listed'
        rcases List.mem_cons.mp listed with same | before <;>
          rcases List.mem_cons.mp listed' with same' | before'
        · cases same
          cases same'
          rfl
        · cases same
          exact absurd before' (unoccupied _)
        · cases same'
          exact absurd before (unoccupied _)
        · exact invariant.heap.alone before before' }
  tables := by
    intro type array isTable
    apply @invariant.tables type
    cases type <;> exact isTable
  entered handle isLive object isReferent := by
    obtain ⟨older, index, entry, positive, small, isRef, given, isEntry⟩ :=
      invariant.entered handle isLive object isReferent
    refine ⟨Nat.lt_succ_of_lt older, index, entry, positive, small, isRef, given, ?_⟩
    obtain alive | ⟨isWeak, isNull, isDead⟩ := isEntry
    · exact Or.inl (List.mem_cons_of_mem _ alive)
    · refine Or.inr ⟨isWeak, isNull, ?_⟩
      intro other listed
      rcases List.mem_cons.mp listed with same | before
      · cases same
        exact absurd older (Nat.lt_irrefl _)
      · exact isDead other before
  reserved := invariant.reserved
  distinct := invariant.distinct

theorem System.Invariant.collected
    (invariant : system.Invariant)
    {collection : Collection}
    {held : Oop}
    (isValid : collection.IsValid system.state held) :
    (system.collected collection).Invariant where
  heap := invariant.heap.collect isValid
  tables := State.HasTables.collect invariant.tables collection
  entered handle isLive object isReferent := by
    obtain ⟨older, isEntered⟩ := invariant.entered handle isLive object isReferent
    exact ⟨older, isEntered.collect invariant.heap isValid⟩
  reserved := invariant.reserved
  distinct := invariant.distinct

/-- The collection of an allocation. -/
theorem System.Invariant.collectIf
    (invariant : system.Invariant)
    {allocation : Allocation}
    {held : Oop}
    (isValid : allocation.IsValid system.state held)
    (collects : Bool) :
    { system with state := allocation.collectIf collects system.state : System }.Invariant := by
  cases collects with
  | false =>
      exact invariant
  | true =>
      unfold Allocation.collectIf Allocation.collect
      cases collection : allocation.collection with
      | none =>
          exact invariant
      | some collection' =>
          exact invariant.collected (isValid collection)

/-- The object that is handed over is there after the collection. -/
theorem holds_collectIf
    {state : State}
    {allocation : Allocation}
    {oop : Oop}
    {object born : Nat}
    (isHeap : state.IsHeap born)
    (isValid : allocation.IsValid state oop)
    (collects : Bool)
    (listed : (oop, object) ∈ state.objects) :
    (allocation.updateIf collects oop, object) ∈ (allocation.collectIf collects state).objects := by
  cases collects with
  | false =>
      exact listed
  | true =>
      unfold Allocation.collectIf Allocation.updateIf Allocation.collect Allocation.update
      cases collection : allocation.collection with
      | none =>
          exact listed
      | some collection' =>
          have marked :=
            (isValid collection).marksHeld (ne_zero_of_isHeap (isHeap.inHeap listed))
          obtain ⟨moved, goes⟩ := Option.isSome_iff_exists.mp marked
          simp only [if_true, Collection.updateInteriorPointer, goes, Option.getD_some]
          exact mem_objects_collect.mpr ⟨oop, listed, goes⟩

theorem registerGlobalRefObject_eq
    (oop : Oop)
    (type : ReferenceType)
    (allocation : Allocation)
    (state : State) :
    registerGlobalRefObject oop type allocation state =
      registerReference type oop allocation state := by
  cases type <;> rfl

theorem State.HasTables.setReferenceArray
    {state : State}
    (hasTables : state.HasTables)
    {type : ReferenceType}
    {array : List Oop}
    (nonempty : 0 < array.length)
    (small : array.length ≤ 2 ^ 27) :
    (state.setReferenceArray type array).HasTables := by
  intro other table isTable
  by_cases same : other = type
  · subst same
    rw [referenceArray_setReferenceArray_self] at isTable
    cases isTable
    exact ⟨nonempty, small⟩
  · rw [referenceArray_setReferenceArray_of_ne same] at isTable
    exact hasTables isTable

theorem State.IsHeap.setReferenceArray
    {state : State}
    {born : Nat}
    (isHeap : state.IsHeap born)
    (type : ReferenceType)
    (array : List Oop) :
    (state.setReferenceArray type array).IsHeap born := by
  constructor
  all_goals
    intros
    simp only [objects_setReferenceArray] at *
  · exact isHeap.inHeap ‹_›
  · exact isHeap.older ‹_›
  · exact isHeap.once ‹_› ‹_›
  · exact isHeap.alone ‹_› ‹_›

/-- A reference is put into a table. -/
theorem System.Invariant.registered
    {oop : Oop}
    {referent : Option Nat}
    {type : ReferenceType}
    {allocation : Allocation}
    {result : Ref × State}
    {collects : Bool}
    {index : Nat}
    {array : List Oop}
    (holds : system.state.Holds oop referent)
    (isHeap : system.state.IsHeap system.born)
    (isValid : allocation.IsValid system.state oop)
    (before :
      { system with state := allocation.collectIf collects system.state : System }.Invariant)
    (registered : Registered type oop allocation system.state result collects index array) :
    { system with
      state := result.2
      live := { ref := result.1, type := type, referent := referent } :: system.live :
        System }.Invariant := by
  have bound : index < 2 ^ 27 := Nat.lt_of_lt_of_le registered.inside registered.small
  have heap : result.2.IsHeap system.born := by
    rw [registered.put]
    exact before.heap.setReferenceArray type array
  have oldHandles :
      ∀ handle ∈ system.live, ∀ object, handle.referent = some object →
        handle.IsEntered result.2 object ∧ handle.ref ≠ result.1 := by
    intro handle isLive object isReferent
    have isEntered := (before.entered handle isLive object isReferent).2
    exact ⟨isEntered.registered before.heap registered, isEntered.ref_ne before.heap registered⟩
  constructor
  · exact heap
  · rw [registered.put]
    exact State.HasTables.setReferenceArray before.tables
      (Nat.lt_of_le_of_lt (Nat.zero_le _) registered.inside) registered.small
  · intro handle isLive object isReferent
    rcases List.mem_cons.mp isLive with isNew | isOld
    · subst isNew
      cases isReferent
      have alive : (oop, object) ∈ system.state.objects := holds
      obtain ⟨positive, found⟩ := registered.entered (ne_zero_of_isHeap (isHeap.inHeap alive))
      refine ⟨isHeap.older alive, index, allocation.updateIf collects oop, positive, bound,
        registered.ref, ?_, Or.inl ?_⟩
      · rw [registered.ref, getGlobalRefObject_makeReference bound, registered.put,
          referenceArray_setReferenceArray_self]
        exact found
      · rw [registered.put, objects_setReferenceArray]
        exact holds_collectIf isHeap isValid collects alive
    · exact ⟨(before.entered handle isOld object isReferent).1,
        (oldHandles handle isOld object isReferent).1⟩
  · intro handle isLive isReferent
    rcases List.mem_cons.mp isLive with isNew | isOld
    · subst isNew
      cases isReferent
      have isNull : oop = 0 := holds
      rw [registered.ref, registered.reserved isNull]
    · exact before.reserved handle isOld isReferent
  · cases referent with
    | none =>
        exact before.distinct
    | some object =>
        refine List.Pairwise.cons ?_ before.distinct
        intro handle isObject
        obtain ⟨isLive, object', isReferent⟩ := mem_objectHandles.1 isObject
        exact Ne.symm (oldHandles handle isLive object' isReferent).2

theorem System.Invariant.created
    (invariant : system.Invariant)
    {oop : Oop}
    {referent : Option Nat}
    (type : ReferenceType)
    {allocation : Allocation}
    (holds : system.state.Holds oop referent)
    (isValid : allocation.IsValid system.state oop) :
    (system.created oop referent type allocation).Invariant := by
  simp only [System.created, registerGlobalRefObject_eq]
  obtain ⟨collects, failed⟩ | ⟨collects, index, array, registered⟩ :=
    registerReference_cases type oop allocation invariant.tables
  · have negative : failure.msb = true := by decide
    rw [failed, if_pos negative]
    exact invariant.collectIf isValid collects
  · have bound : index < 2 ^ 27 := Nat.lt_of_lt_of_le registered.inside registered.small
    rw [if_neg (by simp [registered.ref, makeReference_msb bound])]
    exact System.Invariant.registered holds invariant.heap isValid
      (invariant.collectIf isValid collects) registered

/-- Another handle for an object has another number. -/
theorem System.Invariant.ref_ne_of_mem_erase
    (invariant : system.Invariant)
    {handle other : Handle}
    {object : Nat}
    (isLive : handle ∈ system.live)
    (isOther : other ∈ system.live.erase handle)
    (isReferent : other.referent = some object) :
    other.ref ≠ handle.ref := by
  have otherLive := List.mem_of_mem_erase isOther
  obtain ⟨_, index, _, positive, small, isRef, _⟩ :=
    invariant.entered other otherLive object isReferent
  cases isNull : handle.referent with
  | none =>
      rw [isRef, invariant.reserved handle isLive isNull]
      intro same
      rw [(makeReference_inj small (by decide) same).2] at positive
      exact absurd positive (Nat.lt_irrefl 0)
  | some object' =>
      have isObject : handle ∈ system.objectHandles := mem_objectHandles.2 ⟨isLive, object', isNull⟩
      have inErased : other ∈ system.objectHandles.erase handle := by
        rw [System.objectHandles, List.erase_filter]
        exact List.mem_filter.mpr ⟨isOther, by rw [isReferent]; rfl⟩
      have split := List.perm_cons_erase isObject
      have apart := (split.pairwise_iff fun {first second} different => Ne.symm different).mp
        invariant.distinct
      exact Ne.symm ((List.pairwise_cons.mp apart).1 other inErased)

theorem System.Invariant.destroyed
    (invariant : system.Invariant)
    {handle : Handle}
    (isLive : handle ∈ system.live) :
    (system.destroyed handle).Invariant := by
  obtain ⟨index, small, isRef⟩ := invariant.ref_eq isLive
  have sameObjects :
      (unregisterGlobalRefObject handle.ref system.state).objects = system.state.objects := by
    rw [isRef]
    exact objects_unregister small
  constructor
  · constructor
    all_goals
      intros
      simp only [System.destroyed, sameObjects] at *
    · exact invariant.heap.inHeap ‹_›
    · exact invariant.heap.older ‹_›
    · exact invariant.heap.once ‹_› ‹_›
    · exact invariant.heap.alone ‹_› ‹_›
  · simp only [System.destroyed, isRef]
    exact State.HasTables.unregister invariant.tables small
  · intro other isOther object isReferent
    obtain ⟨older, isEntered⟩ :=
      invariant.entered other (List.mem_of_mem_erase isOther) object isReferent
    refine ⟨older, ?_⟩
    have different := invariant.ref_ne_of_mem_erase isLive isOther isReferent
    simp only [System.destroyed, isRef] at different ⊢
    exact isEntered.unregister small different
  · intro other isOther
    exact invariant.reserved other (List.mem_of_mem_erase isOther)
  · rw [System.objectHandles, System.destroyed, ← List.erase_filter]
    exact invariant.distinct.erase handle

theorem Reachable.invariant (reachable : Reachable system) : system.Invariant := by
  induction reachable with
  | initial =>
      constructor
      · constructor
        all_goals
          intros
          exact absurd ‹_ ∈ _› List.not_mem_nil
      · intro type array isTable
        cases type <;> cases isTable
      · intro handle isLive
        exact absurd isLive List.not_mem_nil
      · intro handle isLive
        exact absurd isLive List.not_mem_nil
      · exact List.Pairwise.nil
  | step before step inductionHypothesis =>
      cases step with
      | allocate oop inHeap unoccupied =>
          exact inductionHypothesis.allocated inHeap unoccupied
      | collect collection isValid =>
          exact inductionHypothesis.collected isValid
      | create oop referent type allocation holds isValid =>
          exact inductionHypothesis.created type holds isValid
      | destroy handle isLive =>
          exact inductionHypothesis.destroyed isLive

end Steps

/-! ## The result -/

/-- An allocation that finds room. -/
def roomy : Allocation where
  collection := none
  succeeds := true

theorem roomy_isValid (state : State) (held : Oop) : roomy.IsValid state held := by
  intro collection isCollection
  cases isCollection

/-- One object, and a strong reference to it. -/
def oneReference : System :=
  (System.initial.allocated 8).created 8 (some 0) .strong roomy

/-- Two references to null. -/
def twoNulls : System :=
  (System.initial.created 0 none .strong roomy).created 0 none .strong roomy

end PicoJvm.Memory
