import PicoJvm.Memory.GlobalReferences

/-!
# The tables of global references

What collections, creations and destructions do to the entries of the tables.
-/

namespace PicoJvm.Memory

/-- Tables have the reserved element, and are no longer than arrays can be. -/
def State.HasTables (state : State) : Prop :=
  ∀ {type array}, state.referenceArray type = some array →
    0 < array.length ∧ array.length ≤ 2 ^ 27

/-! ## What a collection does to an entry -/

/-- The entry that becomes of an entry. -/
def Collection.newEntry (collection : Collection) : ReferenceType → Oop → Oop
  | .strong, obj => collection.updateInteriorPointer obj
  | .weak, obj =>
      let cleared := if notNullOrUnused obj then collection.clearNonMarked obj else obj
      if notNullOrUnused cleared then collection.updateInteriorPointer cleared else cleared

section Entries

variable {collection : Collection} {state : State} {held oop moved : Oop} {type : ReferenceType}

theorem referenceArray_collect (collection : Collection) (state : State) (type : ReferenceType) :
    (collection.collect state).referenceArray type =
      (state.referenceArray type).map fun array => array.map (collection.newEntry type) := by
  cases type with
  | strong =>
      rfl
  | weak =>
      simp only [Collection.collect, State.referenceArray, oopsDo, List.map_map]
      rfl

theorem mem_objects_collect {object : Nat} :
    (moved, object) ∈ (collection.collect state).objects ↔
      ∃ oop, (oop, object) ∈ state.objects ∧ collection.destination oop = some moved := by
  simp only [Collection.collect, List.mem_filterMap, Prod.exists, Option.map_eq_some_iff]
  constructor
  · rintro ⟨oop, _, listed, _, goes, same⟩
    cases same
    exact ⟨oop, listed, goes⟩
  · rintro ⟨oop, listed, goes⟩
    exact ⟨oop, object, listed, moved, goes, rfl⟩

@[simp] theorem notNullOrUnused_zero : notNullOrUnused 0#32 = false := by
  decide

theorem newEntry_marked
    (isHeap : notNullOrUnused oop = true)
    (goes : collection.destination oop = some moved) :
    collection.newEntry type oop = moved := by
  cases type with
  | strong =>
      simp [Collection.newEntry, Collection.updateInteriorPointer, goes]
  | weak =>
      simp [Collection.newEntry, Collection.updateInteriorPointer, Collection.clearNonMarked, goes,
        isHeap]

theorem newEntry_unmarked
    (isHeap : notNullOrUnused oop = true)
    (stays : collection.destination oop = none) :
    collection.newEntry .weak oop = 0 := by
  simp [Collection.newEntry, Collection.clearNonMarked, stays, isHeap, dead]

theorem newEntry_dead (collection : Collection) : collection.newEntry .weak 0 = 0 := by
  simp [Collection.newEntry]

theorem ne_zero_of_isHeap (isHeap : notNullOrUnused oop = true) : oop ≠ 0 := by
  rintro rfl
  exact absurd isHeap (by decide)

theorem ne_free_of_isHeap (isHeap : notNullOrUnused oop = true) : oop ≠ type.free := by
  cases type with
  | strong =>
      exact ne_zero_of_isHeap isHeap
  | weak =>
      rintro rfl
      exact absurd isHeap (by decide)

theorem State.HasTables.collect (hasTables : state.HasTables) (collection : Collection) :
    (collection.collect state).HasTables := by
  intro type array isTable
  rw [referenceArray_collect] at isTable
  obtain ⟨before, wasTable, rfl⟩ := Option.map_eq_some_iff.mp isTable
  rw [List.length_map]
  exact hasTables wasTable

theorem getGlobalRefObject_collect
    {type : ReferenceType}
    {index : Nat}
    (small : index < 2 ^ 27)
    (collection : Collection)
    (state : State) :
    getGlobalRefObject (makeReference type index) (collection.collect state) =
      (getGlobalRefObject (makeReference type index) state).map (collection.newEntry type) := by
  rw [getGlobalRefObject_makeReference small, getGlobalRefObject_makeReference small,
    referenceArray_collect]
  cases state.referenceArray type with
  | none =>
      rfl
  | some array =>
      simp

end Entries

/-- The tables and the heap, if the allocation collects. -/
def Allocation.collectIf (allocation : Allocation) (collects : Bool) (state : State) : State :=
  if collects then allocation.collect state else state

/-! ## What a creation does -/

/-- What a handle holds, if the allocation collects. -/
def Allocation.updateIf (allocation : Allocation) (collects : Bool) (held : Oop) : Oop :=
  if collects then allocation.update held else held

/-- A creation that succeeds puts the referent at a free index of its table, and null at the
reserved one. -/
structure Registered (type : ReferenceType) (oop : Oop) (allocation : Allocation) (state : State)
    (result : Ref × State) (collects : Bool) (index : Nat) (array : List Oop) : Prop where
  ref : result.1 = makeReference type index
  put : result.2 = (allocation.collectIf collects state).setReferenceArray type array
  inside : index < array.length
  small : array.length ≤ 2 ^ 27
  reserved : oop = 0 → index = 0
  entered : oop ≠ 0 → 0 < index ∧ array[index]? = some (allocation.updateIf collects oop)
  kept :
    ∀ {table}, (allocation.collectIf collects state).referenceArray type = some table →
      ∀ {other}, other ≠ index → other < table.length → array[other]? = table[other]?
  vacant :
    oop ≠ 0 → ∀ {table}, (allocation.collectIf collects state).referenceArray type = some table →
      ∀ {entry}, table[index]? = some entry → entry = type.free

section Registering

variable {type : ReferenceType} {array : List Oop} {state : State}

theorem freeIndex_le (type : ReferenceType) (nonempty : 0 < array.length) : freeIndex type array ≤ array.length := by
  have inside :
      (array.drop 1).findIdx (fun obj => decide (obj = type.free)) ≤ (array.drop 1).length :=
    List.findIdx_le_length
  rw [List.length_drop] at inside
  rw [freeIndex]
  omega

theorem freeIndex_free
    {entry : Oop}
    (isEntry : array[freeIndex type array]? = some entry) :
    entry = type.free := by
  rw [freeIndex, Nat.add_comm, ← List.getElem?_drop] at isEntry
  obtain ⟨inside, same⟩ := List.getElem?_eq_some_iff.mp isEntry
  have isFree := List.findIdx_getElem (w := inside)
  rw [same] at isFree
  exact of_decide_eq_true isFree

theorem freeIndex_create : freeIndex type (type.create 16) = 1 := by
  cases type <;> rfl

theorem length_create (type : ReferenceType) (length : Nat) :
    (type.create length).length = length ∨ (type.create length).length = length + 1 := by
  cases type with
  | strong =>
      exact Or.inl (List.length_replicate)
  | weak =>
      exact Or.inr (by simp [ReferenceType.create])

theorem ofLength_cases (allocation : Allocation) (length : Nat) :
    (∃ collects, (∀ state, (allocation.ofLength length).collect state =
        allocation.collectIf collects state) ∧
      ∀ held, (allocation.ofLength length).update held = allocation.updateIf collects held) ∧
      ((allocation.ofLength length).succeeds = true → length ≤ 2 ^ 27) := by
  unfold Allocation.ofLength
  split
  · next fits =>
      exact ⟨⟨true, fun _ => rfl, fun _ => rfl⟩, fun _ => fits⟩
  · exact ⟨⟨false, fun _ => rfl, fun _ => rfl⟩, fun succeeds => by cases succeeds⟩

@[simp] theorem referenceArray_setReferenceArray_self :
    (state.setReferenceArray type array).referenceArray type = some array := by
  cases type <;> rfl

theorem referenceArray_setReferenceArray_of_ne
    {other : ReferenceType}
    (different : other ≠ type) :
    (state.setReferenceArray type array).referenceArray other = state.referenceArray other := by
  cases type <;> cases other <;> first | rfl | exact absurd rfl different

@[simp] theorem objects_setReferenceArray :
    (state.setReferenceArray type array).objects = state.objects := by
  cases type <;> rfl

/-- The tables keep their lengths in a collection. -/
theorem length_collectIf
    {table : List Oop}
    (allocation : Allocation)
    (collects : Bool)
    (isTable : state.referenceArray type = some table) :
    ∃ moved, (allocation.collectIf collects state).referenceArray type = some moved ∧
      moved.length = table.length := by
  cases collects with
  | false =>
      exact ⟨table, isTable, rfl⟩
  | true =>
      unfold Allocation.collectIf Allocation.collect
      cases allocation.collection with
      | none =>
          exact ⟨table, isTable, rfl⟩
      | some collection =>
          refine ⟨table.map (collection.newEntry type), ?_, List.length_map _⟩
          simp [referenceArray_collect, isTable]

theorem collectIf_none
    (allocation : Allocation)
    (collects : Bool)
    (noTable : state.referenceArray type = none) :
    (allocation.collectIf collects state).referenceArray type = none := by
  cases collects with
  | false =>
      exact noTable
  | true =>
      unfold Allocation.collectIf Allocation.collect
      cases allocation.collection with
      | none =>
          exact noTable
      | some collection =>
          simp [referenceArray_collect, noTable]

section Put

variable {allocation : Allocation} {collects : Bool} {oop : Oop} {index : Nat}

/-- The array has the entries of the table, where there is one. -/
def Extends (array : List Oop) (before : Option (List Oop)) : Prop :=
  ∀ {table}, before = some table → ∀ {other}, other < table.length → array[other]? = table[other]?

theorem Registered.null
    (inside : 0 < array.length)
    (small : array.length ≤ 2 ^ 27)
    (extended : Extends array ((allocation.collectIf collects state).referenceArray type)) :
    Registered type 0 allocation state (putNull type array (allocation.collectIf collects state))
      collects 0 array where
  ref := rfl
  put := rfl
  inside := inside
  small := small
  reserved _ := rfl
  entered notNull := absurd rfl notNull
  kept isTable _ _ bound := extended isTable bound
  vacant notNull := absurd rfl notNull

theorem Registered.entry
    (notNull : oop ≠ 0)
    (positive : 0 < index)
    (inside : index < array.length)
    (small : array.length ≤ 2 ^ 27)
    (extended : Extends array ((allocation.collectIf collects state).referenceArray type))
    (vacant :
      ∀ {table}, (allocation.collectIf collects state).referenceArray type = some table →
        ∀ {entry}, table[index]? = some entry → entry = type.free) :
    Registered type oop allocation state
      (putReference type array index (allocation.updateIf collects oop)
        (allocation.collectIf collects state))
      collects index (array.set index (allocation.updateIf collects oop)) where
  ref := rfl
  put := rfl
  inside := by
    rw [List.length_set]
    exact inside
  small := by
    rw [List.length_set]
    exact small
  reserved isNull := absurd isNull notNull
  entered _ := ⟨positive, List.getElem?_set_self inside⟩
  kept isTable _ different bound := by
    rw [List.getElem?_set_ne (Ne.symm different)]
    exact extended isTable bound
  vacant _ := vacant

end Put

/-- The first creation makes the table. -/
theorem registerReference_first
    (oop : Oop)
    (allocation : Allocation)
    (noTable : state.referenceArray type = none) :
    (∃ collects, registerReference type oop allocation state =
      (failure, allocation.collectIf collects state)) ∨
      ∃ collects index array,
        Registered type oop allocation state (registerReference type oop allocation state)
          collects index array := by
  obtain ⟨⟨collects, after, held⟩, _⟩ := ofLength_cases allocation (type.create 16).length
  have noTableAfter := collectIf_none allocation collects noTable
  have extended :
      Extends (type.create 16) ((allocation.collectIf collects state).referenceArray type) := by
    intro table isTable
    rw [noTableAfter] at isTable
    cases isTable
  have inside : 1 < (type.create 16).length := by
    cases type <;> decide
  have small : (type.create 16).length ≤ 2 ^ 27 := by
    cases type <;> decide
  simp only [registerReference, noTable, after, held, freeIndex_create]
  by_cases succeeds : (allocation.ofLength (type.create 16).length).succeeds = true
  · rw [if_pos succeeds]
    refine Or.inr ⟨collects, ?_⟩
    by_cases isNull : oop = 0
    · rw [if_pos isNull, isNull]
      exact ⟨0, _, Registered.null (by omega) small extended⟩
    · rw [if_neg isNull]
      refine ⟨1, _, Registered.entry isNull (by omega) inside small extended ?_⟩
      intro table isTable
      rw [noTableAfter] at isTable
      cases isTable
  · rw [if_neg succeeds]
    exact Or.inl ⟨collects, rfl⟩

/-- A creation fails, or puts the referent into a table. -/
theorem registerReference_cases
    (type : ReferenceType)
    (oop : Oop)
    (allocation : Allocation)
    (hasTables : state.HasTables) :
    (∃ collects, registerReference type oop allocation state =
      (failure, allocation.collectIf collects state)) ∨
      ∃ collects index array,
        Registered type oop allocation state (registerReference type oop allocation state)
          collects index array := by
  cases isTable : state.referenceArray type with
  | none =>
      exact registerReference_first oop allocation isTable
  | some table =>
      obtain ⟨nonempty, small⟩ := hasTables isTable
      have extended :
          Extends table ((allocation.collectIf false state).referenceArray type) := by
        intro array isArray other _
        rw [show (allocation.collectIf false state).referenceArray type = some table from isTable]
          at isArray
        cases isArray
        rfl
      by_cases isNull : oop = 0
      · simp only [registerReference, isTable, if_pos isNull]
        rw [isNull]
        exact Or.inr ⟨false, 0, table, Registered.null nonempty small extended⟩
      · by_cases room : freeIndex type table < table.length
        · simp only [registerReference, isTable, if_neg isNull, if_pos room]
          refine Or.inr ⟨false, freeIndex type table, _,
            Registered.entry isNull (Nat.succ_pos _) room small extended ?_⟩
          intro array isArray entry isEntry
          rw [show (allocation.collectIf false state).referenceArray type = some table from isTable]
            at isArray
          cases isArray
          exact freeIndex_free isEntry
        · have full : freeIndex type table = table.length := by
            have bound := freeIndex_le type nonempty
            omega
          have longer := length_create type (table.length * 2)
          obtain ⟨⟨collects, after, held⟩, fits⟩ :=
            ofLength_cases allocation (type.create (table.length * 2)).length
          obtain ⟨moved, isMoved, sameLength⟩ := length_collectIf allocation collects isTable
          simp only [registerReference, isTable, if_neg isNull, if_neg room, after, held, isMoved,
            Option.getD_some]
          by_cases succeeds :
              (allocation.ofLength (type.create (table.length * 2)).length).succeeds = true
          · rw [if_pos succeeds]
            have bound := fits succeeds
            have length :
                (moved ++ (type.create (table.length * 2)).drop table.length).length =
                  (type.create (table.length * 2)).length := by
              rw [List.length_append, List.length_drop, sameLength]
              omega
            refine Or.inr ⟨collects, freeIndex type table, _,
              Registered.entry isNull (Nat.succ_pos _) (by omega) (by omega) ?_ ?_⟩
            · intro array isArray other inside
              rw [isMoved] at isArray
              cases isArray
              exact List.getElem?_append_left inside
            · intro array isArray entry isEntry
              rw [isMoved] at isArray
              cases isArray
              have inside := (List.getElem?_eq_some_iff.mp isEntry).1
              omega
          · rw [if_neg succeeds]
            exact Or.inl ⟨collects, rfl⟩

end Registering

/-! ## What a handle gives -/

section Gives

variable {type other : ReferenceType} {index index' : Nat} {state : State} {entry : Oop}

/-- What is put into a table changes no other entry. -/
theorem Registered.getGlobalRefObject_kept
    {oop : Oop}
    {allocation : Allocation}
    {result : Ref × State}
    {collects : Bool}
    {array : List Oop}
    (registered : Registered type oop allocation state result collects index array)
    (small : index' < 2 ^ 27)
    (different : other = type → index' ≠ index)
    (given :
      getGlobalRefObject (makeReference other index') (allocation.collectIf collects state) =
        some entry) :
    getGlobalRefObject (makeReference other index') result.2 = some entry := by
  rw [getGlobalRefObject_makeReference small, Option.bind_eq_some_iff] at given ⊢
  obtain ⟨table, isTable, found⟩ := given
  rw [registered.put]
  by_cases same : other = type
  · subst same
    refine ⟨array, referenceArray_setReferenceArray_self, ?_⟩
    have inside := (List.getElem?_eq_some_iff.mp found).1
    rw [registered.kept isTable (different rfl) inside]
    exact found
  · exact ⟨table, by rw [referenceArray_setReferenceArray_of_ne same]; exact isTable, found⟩

theorem unregisterGlobalRefObject_eq (ref : Ref) (state : State) :
    unregisterGlobalRefObject ref state = unregisterReference (tableOf ref) ref state := by
  rw [unregisterGlobalRefObject, tableOf]
  split <;> rfl

theorem unregisterGlobalRefObject_makeReference (small : index < 2 ^ 27) :
    unregisterGlobalRefObject (makeReference type index) state =
      match state.referenceArray type with
      | none => state
      | some array => state.setReferenceArray type (array.set index type.free) := by
  rewrite [unregisterGlobalRefObject_eq, tableOf_makeReference small, unregisterReference,
    getReferenceIndex_makeReference small]
  cases state.referenceArray type <;> rfl

/-- To destroy a reference leaves the other ones. -/
theorem getGlobalRefObject_unregister
    (small : index < 2 ^ 27)
    (small' : index' < 2 ^ 27)
    (different : makeReference other index' ≠ makeReference type index) :
    getGlobalRefObject (makeReference other index')
        (unregisterGlobalRefObject (makeReference type index) state) =
      getGlobalRefObject (makeReference other index') state := by
  rw [getGlobalRefObject_makeReference small', getGlobalRefObject_makeReference small',
    unregisterGlobalRefObject_makeReference small]
  cases isTable : state.referenceArray type with
  | none =>
      rfl
  | some array =>
      dsimp only
      by_cases same : other = type
      · subst same
        have apart : index ≠ index' := by
          rintro rfl
          exact different rfl
        rw [referenceArray_setReferenceArray_self, isTable]
        exact List.getElem?_set_ne apart
      · rw [referenceArray_setReferenceArray_of_ne same]

theorem objects_unregister (small : index < 2 ^ 27) :
    (unregisterGlobalRefObject (makeReference type index) state).objects = state.objects := by
  rw [unregisterGlobalRefObject_makeReference small]
  cases state.referenceArray type with
  | none =>
      rfl
  | some array =>
      exact objects_setReferenceArray

theorem State.HasTables.unregister
    (hasTables : state.HasTables)
    (small : index < 2 ^ 27) :
    (unregisterGlobalRefObject (makeReference type index) state).HasTables := by
  rw [unregisterGlobalRefObject_makeReference small]
  cases isTable : state.referenceArray type with
  | none =>
      exact hasTables
  | some array =>
      intro other table isOther
      by_cases same : other = type
      · subst same
        rw [referenceArray_setReferenceArray_self] at isOther
        cases isOther
        rw [List.length_set]
        exact hasTables isTable
      · rw [referenceArray_setReferenceArray_of_ne same] at isOther
        exact hasTables isOther

end Gives

end PicoJvm.Memory
