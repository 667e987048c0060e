import PicoJvm.Memory.HeapLayout

/-!
# Collecting until there is room

What `collect` does to the objects, and how it ends: with room for the block that is asked for, or
with an error after a full collection that has not left enough. `allocate` ends within two rounds.
-/

namespace PicoJvm.HeapSpace

open PicoJvm.Lib.Machine

variable {heap heap' heap'' : Heap} {world : Nat → Collection}

/-! ## The objects of a collection -/

@[simp] theorem objects_forceFullCollect (heap : Heap) :
    heap.forceFullCollect.objects = heap.objects :=
  rfl

/-- Boundaries may differ, but the objects do not. -/
structure SameObjects (heap heap' : Heap) : Prop where
  objects : heap'.objects = heap.objects
  collections : heap'.collections = heap.collections
  beforeMain : heap'.beforeMain = heap.beforeMain
  heapStart : heap'.heapStart = heap.heapStart
  heapCapacity : heap'.heapCapacity = heap.heapCapacity

theorem SameObjects.refl (heap : Heap) : SameObjects heap heap :=
  ⟨rfl, rfl, rfl, rfl, rfl⟩

theorem SameObjects.forceFullCollect
    (same : SameObjects heap heap') :
    SameObjects heap heap'.forceFullCollect :=
  { same with }

theorem SameObjects.clearInlineAllocationArea
    (same : SameObjects heap heap') :
    SameObjects heap heap'.clearInlineAllocationArea :=
  { same with }

theorem sameObjects_setCollectionAreaBoundary
    (minFreeAfterCollection : Nat)
    (reusePreviousYoungSpace : Bool)
    (heap : Heap) :
    SameObjects heap
      (heap.setCollectionAreaBoundary minFreeAfterCollection reusePreviousYoungSpace) := by
  apply setCollectionAreaBoundary_induction (SameObjects heap)
  case forced => exact fun _ same => same.forceFullCollect
  case reused => exact fun _ => SameObjects.refl heap
  case notReused =>
    intro _
    constructor
    case objects => simp [Heap.setCollectionAreaBoundaryNoReuse, Heap.objects]
    all_goals rfl

theorem sameObjects_tryToGrow
    (layout : Layout heap)
    (requestedFreeMemory : Int)
    (isFullCollect : Bool)
    (inRange : InRange requestedFreeMemory) :
    SameObjects heap (heap.tryToGrow requestedFreeMemory isFullCollect) := by
  rcases layout.tryToGrow_cases requestedFreeMemory isFullCollect inRange with
    unchanged | ⟨requested, _, _, expanded⟩
  · rw [unchanged]
    exact SameObjects.refl heap
  · rw [expanded]
    constructor
    case objects => simp [Heap.expand, Heap.objects]
    all_goals rfl

theorem sameObjects_internalCollect
    (world : Nat → Collection)
    (minFreeAfterCollection : Nat)
    (heap : Heap) :
    SameObjects (heap.compactObjects (world heap.collections))
      (heap.internalCollect world minFreeAfterCollection) := by
  rw [Heap.internalCollect]
  exact sameObjects_setCollectionAreaBoundary _ _ _

/-- The objects after a collection. -/
theorem objects_internalCollect
    (world : Nat → Collection)
    (minFreeAfterCollection : Nat)
    (heap : Heap) :
    (heap.internalCollect world minFreeAfterCollection).objects =
      heap.outside ++ heap.survivors (world heap.collections) :=
  (sameObjects_internalCollect world minFreeAfterCollection heap).objects

/-! ## What survives -/

/-- From one state to the next there have been collections only. No object is new, and one that has
always been marked is still there. It has lost bytes only where an execution stack had too many. -/
structure Survives (world : Nat → Collection) (heap heap' : Heap) : Prop where
  later : heap.collections ≤ heap'.collections
  beforeMain : heap'.beforeMain = heap.beforeMain
  heapStart : heap'.heapStart = heap.heapStart
  heapCapacity : heap'.heapCapacity = heap.heapCapacity
  numbers : heap'.numbers.Sublist heap.numbers
  nothingNew :
    ∀ obj' ∈ heap'.objects, ∀ number, obj'.object = some number →
      ∃ obj ∈ heap.objects, obj.object = some number ∧ obj'.size ≤ obj.size
  kept :
    ∀ obj ∈ heap.objects, ∀ number, obj.object = some number →
      (∀ collection, heap.collections ≤ collection → collection < heap'.collections →
        (world collection).marked number = true) →
        ∃ obj' ∈ heap'.objects, obj'.object = some number ∧
          (obj'.size = obj.size ∨
            ∃ collection, heap.collections ≤ collection ∧ collection < heap'.collections ∧
              0 < (world collection).spare number)

namespace Survives

/-- The objects are the same, and nothing has been collected. -/
theorem of_sameObjects
    (same : SameObjects heap heap') :
    Survives world heap heap' := by
  refine ⟨Nat.le_of_eq same.collections.symm, same.beforeMain, same.heapStart,
    same.heapCapacity, ?_, ?_, ?_⟩
  · rw [Heap.numbers, same.objects]
    exact List.Sublist.refl _
  · intro obj' listed number isNumber
    exact ⟨obj', same.objects ▸ listed, isNumber, Nat.le_refl _⟩
  · intro obj listed number isNumber _
    exact ⟨obj, same.objects.symm ▸ listed, isNumber, Or.inl rfl⟩

theorem trans
    (first : Survives world heap heap')
    (second : Survives world heap' heap'') :
    Survives world heap heap'' := by
  refine ⟨Nat.le_trans first.later second.later, second.beforeMain.trans first.beforeMain,
    second.heapStart.trans first.heapStart, second.heapCapacity.trans first.heapCapacity,
    second.numbers.trans first.numbers, ?_, ?_⟩
  · intro obj'' listed number isNumber
    obtain ⟨obj', listed', isNumber', smaller'⟩ :=
      second.nothingNew obj'' listed number isNumber
    obtain ⟨obj, wasListed, wasNumber, smaller⟩ :=
      first.nothingNew obj' listed' number isNumber'
    exact ⟨obj, wasListed, wasNumber, Nat.le_trans smaller' smaller⟩
  · intro obj listed number isNumber marked
    have firstLater := first.later
    have secondLater := second.later
    obtain ⟨obj', listed', isNumber', size'⟩ :=
      first.kept obj listed number isNumber fun collection from' below =>
        marked collection from' (by omega)
    obtain ⟨obj'', listed'', isNumber'', size''⟩ :=
      second.kept obj' listed' number isNumber' fun collection from' below =>
        marked collection (by omega) below
    refine ⟨obj'', listed'', isNumber'', ?_⟩
    rcases size'' with same'' | ⟨collection, from', below, spare⟩
    · rcases size' with same' | ⟨collection, from', below, spare⟩
      · exact Or.inl (same''.trans same')
      · exact Or.inr ⟨collection, from', by omega, spare⟩
    · exact Or.inr ⟨collection, by omega, below, spare⟩

end Survives

/-- The objects after a collection have been there before, in the same order. -/
theorem sublist_collected (collection : Collection) (heap : Heap) :
    (heap.outside ++ heap.survivors collection).Sublist heap.objects := by
  rw [Heap.outside, Heap.survivors]
  split
  · exact List.filter_sublist
  · exact (List.Sublist.refl _).append List.filter_sublist

theorem mem_collected_of_marked
    {obj : Obj} {number : Nat}
    (listed : obj ∈ heap.objects)
    (isNumber : obj.object = some number)
    (marked : (world heap.collections).marked number = true) :
    obj ∈ heap.outside ++ heap.survivors (world heap.collections) := by
  have marks : (world heap.collections).marks obj = true := by
    simp [Collection.marks, isNumber, marked]
  simp only [Heap.outside, Heap.survivors, List.mem_append, List.mem_filter]
  split
  · exact Or.inr ⟨listed, marks⟩
  · rcases List.mem_append.mp listed with isOld | isYoung
    · exact Or.inl isOld
    · exact Or.inr ⟨isYoung, marks⟩

theorem survives_internalCollect
    (world : Nat → Collection)
    (minFreeAfterCollection : Nat)
    (heap : Heap) :
    Survives world heap (heap.internalCollect world minFreeAfterCollection) := by
  have same := sameObjects_internalCollect world minFreeAfterCollection heap
  have collections :
      (heap.internalCollect world minFreeAfterCollection).collections = heap.collections + 1 :=
    same.collections
  refine ⟨by omega, same.beforeMain, same.heapStart, same.heapCapacity, ?_, ?_, ?_⟩
  · rw [Heap.numbers, objects_internalCollect]
    exact (sublist_collected (world heap.collections) heap).filterMap _
  · intro obj' listed number isNumber
    rw [objects_internalCollect] at listed
    exact ⟨obj', (sublist_collected _ heap).subset listed, isNumber, Nat.le_refl _⟩
  · intro obj listed number isNumber marked
    rw [objects_internalCollect]
    have isMarked := marked heap.collections (Nat.le_refl _) (by omega)
    exact ⟨obj, mem_collected_of_marked listed isNumber isMarked, isNumber, Or.inl rfl⟩

/-! ## Execution stacks -/

theorem bytes_shrinkObject (spare : Nat → Nat) (objects : List Obj) :
    bytes (objects.flatMap (Heap.shrinkObject spare)) = bytes objects := by
  induction objects with
  | nil =>
      rfl
  | cons obj rest inductionHypothesis =>
      rw [List.flatMap_cons, bytes_append, inductionHypothesis, bytes_cons]
      congr 1
      simp only [Heap.shrinkObject]
      split
      · next shrunk =>
          simp only [bytes_cons, bytes_nil]
          omega
      · simp

theorem filterMap_shrinkObject (spare : Nat → Nat) (objects : List Obj) :
    (objects.flatMap (Heap.shrinkObject spare)).filterMap Obj.object =
      objects.filterMap Obj.object := by
  induction objects with
  | nil =>
      rfl
  | cons obj rest inductionHypothesis =>
      rw [List.flatMap_cons, List.filterMap_append, inductionHypothesis]
      simp only [Heap.shrinkObject]
      split <;> cases object : obj.object <;> simp [object]

theorem objects_shrinkExecutionStacks (spare : Nat → Nat) (heap : Heap) :
    (heap.shrinkExecutionStacks spare).objects =
      heap.objects.flatMap (Heap.shrinkObject spare) := by
  simp [Heap.shrinkExecutionStacks, Heap.objects]

theorem Layout.shrinkExecutionStacks
    (layout : Layout heap)
    (spare : Nat → Nat) :
    Layout (heap.shrinkExecutionStacks spare) := by
  constructor
  case toChunk => exact { layout.toChunk with }
  case oldGeneration =>
    simp only [Heap.shrinkExecutionStacks, bytes_shrinkObject]
    exact layout.oldGeneration
  case youngStart => exact layout.youngStart
  case youngGeneration =>
    simp only [Heap.shrinkExecutionStacks, bytes_shrinkObject]
    exact layout.youngGeneration
  case collectionArea => exact layout.collectionArea
  case allocationTop => exact layout.allocationTop
  case allocationEnd => exact layout.allocationEnd

/-- A part of an object with its number is the object, or what is left of the stack. -/
theorem mem_shrinkObject
    {spare : Nat → Nat} {obj part : Obj} {number : Nat}
    (listed : part ∈ Heap.shrinkObject spare obj)
    (isNumber : part.object = some number) :
    obj.object = some number ∧ part.size ≤ obj.size := by
  simp only [Heap.shrinkObject] at listed
  split at listed
  · rcases List.mem_cons.mp listed with rfl | stays
    · exact absurd isNumber (by simp)
    · rw [List.mem_singleton] at stays
      rw [stays] at isNumber ⊢
      exact ⟨isNumber, Nat.sub_le _ _⟩
  · rw [List.mem_singleton] at listed
    rw [listed] at isNumber ⊢
    exact ⟨isNumber, Nat.le_refl _⟩

theorem shrinkObject_of_object
    (spare : Nat → Nat)
    {obj : Obj} {number : Nat}
    (isNumber : obj.object = some number) :
    ∃ part ∈ Heap.shrinkObject spare obj,
      part.object = some number ∧ (part.size = obj.size ∨ 0 < spare number) := by
  simp only [Heap.shrinkObject, isNumber, Option.map_some, Option.getD_some]
  split
  · next shrunk => exact ⟨_, List.mem_cons_of_mem _ (List.mem_singleton_self _), rfl,
      Or.inr shrunk.1⟩
  · exact ⟨obj, List.mem_singleton_self _, isNumber, Or.inl rfl⟩

/-- The collection that follows once the execution stacks have been shrunk. -/
theorem survives_shrunk
    (world : Nat → Collection)
    (minFreeAfterCollection : Nat)
    (heap : Heap) :
    Survives world heap
      ((heap.shrinkExecutionStacks
          (world heap.collections).spare).forceFullCollect.internalCollect world
        minFreeAfterCollection) := by
  generalize isShrunk :
    (heap.shrinkExecutionStacks (world heap.collections).spare).forceFullCollect = shrunk
  have shrunkObjects :
      shrunk.objects = heap.objects.flatMap (Heap.shrinkObject (world heap.collections).spare) := by
    rw [← isShrunk, objects_forceFullCollect, objects_shrinkExecutionStacks]
  have shrunkCollections : shrunk.collections = heap.collections := by
    rw [← isShrunk]
    rfl
  have collected := survives_internalCollect world minFreeAfterCollection shrunk
  have collections :
      (shrunk.internalCollect world minFreeAfterCollection).collections = shrunk.collections + 1 :=
    (sameObjects_internalCollect world minFreeAfterCollection shrunk).collections
  have shrunkNumbers : shrunk.numbers = heap.numbers := by
    rw [Heap.numbers, shrunkObjects, filterMap_shrinkObject, Heap.numbers]
  refine ⟨by omega, collected.beforeMain.trans (by rw [← isShrunk]; rfl),
    collected.heapStart.trans (by rw [← isShrunk]; rfl),
    collected.heapCapacity.trans (by rw [← isShrunk]; rfl), ?_, ?_, ?_⟩
  · rw [← shrunkNumbers]
    exact collected.numbers
  · intro obj' listed number isNumber
    obtain ⟨part, partListed, partNumber, smaller⟩ :=
      collected.nothingNew obj' listed number isNumber
    rw [shrunkObjects, List.mem_flatMap] at partListed
    obtain ⟨obj, wasListed, isPart⟩ := partListed
    obtain ⟨wasNumber, smaller'⟩ := mem_shrinkObject isPart partNumber
    exact ⟨obj, wasListed, wasNumber, Nat.le_trans smaller smaller'⟩
  · intro obj listed number isNumber marked
    obtain ⟨part, isPart, partNumber, partSize⟩ :=
      shrinkObject_of_object (world heap.collections).spare isNumber
    have partListed : part ∈ shrunk.objects := by
      rw [shrunkObjects]
      exact List.mem_flatMap.mpr ⟨obj, listed, isPart⟩
    obtain ⟨obj', listed', isNumber', size'⟩ :=
      collected.kept part partListed number partNumber (by rw [shrunkCollections]; exact marked)
    refine ⟨obj', listed', isNumber', ?_⟩
    rcases size' with same | ⟨collection, from', below, spare⟩
    · rcases partSize with partSame | spare
      · exact Or.inl (same.trans partSame)
      · exact Or.inr ⟨heap.collections, Nat.le_refl _, by omega, spare⟩
    · exact Or.inr ⟨collection, by omega, below, spare⟩

/-! ## How collecting ends -/

/-- The last collection has gone over the whole heap: what is there has been marked by it. -/
def LastMarked (world : Nat → Collection) (heap : Heap) : Prop :=
  0 < heap.collections ∧
    ∀ obj ∈ heap.objects, (world (heap.collections - 1)).marks obj = true

/-- How `collect` ends for so many bytes. -/
structure Concludes (world : Nat → Collection) (minFreeAfterCollection : Nat) (heap : Heap)
    (ending : Ending Unit) (heap' : Heap) : Prop where
  layout : Layout heap'
  survives : Survives world heap heap'
  notExited : ending ≠ .exited
  room :
    ending = .returned () → minFreeAfterCollection < 2147483648 →
      HasRoom minFreeAfterCollection heap'
  runsOut :
    ending = .outOfMemory →
      heap'.freeMemory < minFreeAfterCollection ∧ LastMarked world heap' ∧
        heap.collections < heap'.collections

theorem lastMarked_internalCollect
    (full : heap.isFullCollect = true)
    (world : Nat → Collection)
    (minFreeAfterCollection : Nat) :
    LastMarked world (heap.internalCollect world minFreeAfterCollection) := by
  have collections :
      (heap.internalCollect world minFreeAfterCollection).collections = heap.collections + 1 :=
    (sameObjects_internalCollect world minFreeAfterCollection heap).collections
  refine ⟨by omega, ?_⟩
  intro obj listed
  rw [objects_internalCollect, Heap.outside, if_pos full, List.nil_append] at listed
  rw [collections, Nat.add_sub_cancel]
  exact (List.mem_filter.mp listed).2

theorem LastMarked.of_sameObjects
    (marked : LastMarked world heap)
    (same : SameObjects heap heap') :
    LastMarked world heap' := by
  rw [LastMarked, same.collections, same.objects]
  exact marked

/-- The host always answers that the error is to be thrown. -/
theorem Caller.action_eq (caller : Caller) : caller.action = .ignore :=
  ite_self _

theorem handleOutOfMemory_eq
    (world : Nat → Collection)
    (caller : Caller)
    (allocSize rounds : Nat)
    (heap : Heap) :
    heap.handleOutOfMemory world caller allocSize (rounds + 1) = some (.outOfMemory, heap) := by
  simp only [Heap.handleOutOfMemory, Caller.action_eq]

theorem Layout.setCollectionAreaBoundary
    (layout : Layout heap)
    (minFreeAfterCollection : Nat) :
    Collected minFreeAfterCollection
      (heap.setCollectionAreaBoundary minFreeAfterCollection false) := by
  apply setCollectionAreaBoundary_induction (Collected minFreeAfterCollection)
  case forced => exact fun _ collected => collected.forceFullCollect
  case reused => exact fun impossible => absurd impossible Bool.false_ne_true
  case notReused =>
    exact fun _ => Collected.noReuse layout.toChunk layout.tiled layout.fits minFreeAfterCollection

/-- What is free depends on the objects only. -/
theorem Layout.freeMemory_eq_bytes (layout : Layout heap) :
    heap.freeMemory = heap.heapCapacity - bytes heap.objects := by
  have tiled := layout.tiled
  have areaEnd := layout.compilerArea
  have chunkEnd := layout.heapTop
  have capacity := layout.capacity
  rw [layout.freeMemory_eq]
  omega

/-- Once there has been a full collection, `collect` ends whatever the number of rounds. -/
theorem Collected.collectFurther
    {minFreeAfterCollection : Nat}
    (collected : Collected minFreeAfterCollection heap)
    (world : Nat → Collection)
    (caller : Caller) :
    ∃ ending heap',
      (∀ rounds,
        heap.collectFurther world caller (rounds + 1) minFreeAfterCollection =
          some (ending, heap')) ∧
        Concludes world minFreeAfterCollection heap ending heap' := by
  obtain ⟨layout, hasRoom⟩ := collected
  have inRange := inRange_signed minFreeAfterCollection
  obtain ⟨grownLayout, sameFree, keepsRoom⟩ := layout.tryToGrow _ true inRange
  have grownSame := sameObjects_tryToGrow layout _ true inRange
  simp only [Heap.collectFurther]
  generalize heap.tryToGrow (signed minFreeAfterCollection) true = grown at *
  split
  · next satisfied =>
      refine ⟨.returned (), grown, fun _ => rfl, grownLayout, .of_sameObjects grownSame,
        by simp, ?_, by simp⟩
      intro _ small
      have below := layout.below
      have free := layout.freeMemory_eq
      rw [sameFree, signed_of_inRange ⟨by omega, by omega⟩] at satisfied
      have enough : minFreeAfterCollection ≤ heap.freeMemory := by omega
      exact keepsRoom _ (by rw [signed_of_inRange ⟨by omega, by omega⟩]) enough
        (hasRoom small enough)
  · have shrunkLayout :=
      (grownLayout.shrinkExecutionStacks (world grown.collections).spare).forceFullCollect
    have survived := survives_shrunk world minFreeAfterCollection grown
    have recollected := shrunkLayout.internalCollect world minFreeAfterCollection
    have full :
        ((grown.shrinkExecutionStacks
          (world grown.collections).spare).forceFullCollect).isFullCollect = true :=
      isFullCollect_iff.mpr rfl
    have marked := lastMarked_internalCollect full world minFreeAfterCollection
    have collections :=
      (sameObjects_internalCollect world minFreeAfterCollection
        (grown.shrinkExecutionStacks (world grown.collections).spare).forceFullCollect).collections
    generalize ((grown.shrinkExecutionStacks
      (world grown.collections).spare).forceFullCollect.internalCollect world
        minFreeAfterCollection) = last at *
    have fromStart := (Survives.of_sameObjects grownSame).trans survived
    split
    · next lacking =>
        have bounded := (recollected.1.setCollectionAreaBoundary 0).1
        have same := sameObjects_setCollectionAreaBoundary 0 false last
        refine ⟨.outOfMemory, _, fun rounds => handleOutOfMemory_eq _ _ _ rounds _, bounded,
          fromStart.trans (.of_sameObjects same), by simp, by simp, ?_⟩
        intro _
        refine ⟨?_, marked.of_sameObjects same, ?_⟩
        · rw [bounded.freeMemory_eq_bytes, same.objects, same.heapCapacity,
            ← recollected.1.freeMemory_eq_bytes]
          exact lacking
        · have grownCollections := grownSame.collections
          have boundedCollections := same.collections
          simp only [Heap.compactObjects, Heap.forceFullCollect,
            Heap.shrinkExecutionStacks] at collections
          omega
    · next enough =>
        exact ⟨.returned (), last, fun _ => rfl, recollected.1, fromStart, by simp,
          fun _ small => recollected.2 small (Nat.le_of_not_lt enough), by simp⟩

/-- Nothing has been collected before, or a collection that has not been enough. -/
theorem Concludes.after
    {minFreeAfterCollection : Nat} {ending : Ending Unit}
    (before : Survives world heap heap')
    (concludes : Concludes world minFreeAfterCollection heap' ending heap'') :
    Concludes world minFreeAfterCollection heap ending heap'' := by
  have earlier := before.later
  refine ⟨concludes.layout, before.trans concludes.survives, concludes.notExited,
    concludes.room, ?_⟩
  intro ended
  obtain ⟨lacking, marked, later⟩ := concludes.runsOut ended
  exact ⟨lacking, marked, by omega⟩

/-- `collect` ends whatever the number of rounds, once the VM has been set up. -/
theorem Layout.collect
    (layout : Layout heap)
    (isSetUp : heap.beforeMain = false)
    (world : Nat → Collection)
    (caller : Caller)
    (minFreeAfterCollection : Nat) :
    ∃ ending heap',
      (∀ rounds,
        heap.collect world caller (rounds + 1) minFreeAfterCollection = some (ending, heap')) ∧
        Concludes world (alignAllocationSize minFreeAfterCollection) heap ending heap' := by
  simp only [Heap.collect, isSetUp, Bool.false_eq_true, if_false]
  generalize alignAllocationSize minFreeAfterCollection = minFree
  have collected := layout.internalCollect world minFree
  have survived := survives_internalCollect world minFree heap
  generalize heap.internalCollect world minFree = first at *
  split
  · obtain ⟨ending, last, ends, concludes⟩ := collected.collectFurther world caller
    exact ⟨ending, last, ends, concludes.after survived⟩
  · have inRange := inRange_signed minFree
    obtain ⟨grownLayout, sameFree, keepsRoom⟩ := collected.1.tryToGrow _ false inRange
    have grownSame := sameObjects_tryToGrow collected.1 _ false inRange
    generalize first.tryToGrow (signed minFree) false = grown at *
    have fromStart := survived.trans (.of_sameObjects grownSame)
    split
    · next enough =>
        refine ⟨.returned (), grown, fun _ => rfl, grownLayout, fromStart, by simp, ?_, by simp⟩
        intro _ small
        have free : minFree ≤ first.freeMemory := by omega
        exact keepsRoom _ (by rw [signed_of_inRange ⟨by omega, by omega⟩]) free
          (collected.2 small free)
    · have recollected := grownLayout.forceFullCollect.internalCollect world minFree
      have resurvived := survives_internalCollect world minFree grown.forceFullCollect
      obtain ⟨ending, last, ends, concludes⟩ := recollected.collectFurther world caller
      have forced : Survives world grown grown.forceFullCollect :=
        .of_sameObjects (SameObjects.refl grown).forceFullCollect
      exact ⟨ending, last, ends,
        ((concludes.after resurvived).after forced).after fromStart⟩

/-! ## How allocation ends -/

/-- The block that comes next has been cleared. -/
def Cleared (heap : Heap) : Prop :=
  ∀ address, heap.inlineAllocationTop ≤ address → address < heap.inlineAllocationEnd →
    heap.memory address = 0

theorem cleared_clearInlineAllocationArea (heap : Heap) :
    Cleared heap.clearInlineAllocationArea :=
  fun _ above below => if_pos ⟨above, below⟩

/-- A size that `ObjectHeap::allocate` is called with: a whole number of words, and not more than
the longest array of the widest elements takes. -/
structure Request where
  size : Nat
  aligned : size % 4 = 0
  bounded : size ≤ 1073741832

theorem Request.alignAllocationSize_eq (request : Request) :
    alignAllocationSize request.size = request.size := by
  have aligned := request.aligned
  have bounded := request.bounded
  have rounded : unsigned ((request.size : Int) + 3) = request.size + 3 := by
    rw [show (request.size : Int) + 3 = ((request.size + 3 : Nat) : Int) by omega]
    exact unsigned_natCast (by omega)
  rw [alignAllocationSize, rounded]
  omega

/-- With room for the block, it is taken at the top. -/
theorem allocate_of_hasRoom
    (layout : Layout heap)
    {size : Nat}
    (room : HasRoom size heap)
    (world : Nat → Collection)
    (caller : Caller)
    (rounds : Nat) :
    heap.allocate world caller size (rounds + 1) =
      some (.returned heap.inlineAllocationTop,
        { heap with inlineAllocationTop := heap.inlineAllocationTop + size }) := by
  have below := layout.below
  have allocationEnd := layout.allocationEnd
  rw [HasRoom] at room
  simp only [Heap.allocate]
  rw [derived_natCast (by omega), if_neg (by omega), if_pos room]

/-- Without room, `collect` decides. The end of the block does not wrap around. -/
theorem allocate_of_not_hasRoom
    (layout : Layout heap)
    (request : Request)
    (noRoom : ¬ HasRoom request.size heap)
    (world : Nat → Collection)
    (caller : Caller)
    (rounds : Nat) :
    heap.allocate world caller request.size (rounds + 1) =
      match heap.collect world caller (rounds + 1) request.size with
      | none => none
      | some (.returned _, heap) =>
          heap.clearInlineAllocationArea.allocate world caller request.size rounds
      | some (.outOfMemory, heap) => some (.outOfMemory, heap.clearInlineAllocationArea)
      | some (.exited, heap) => some (.exited, heap) := by
  have below := layout.below
  have fits := layout.fits
  have bounded := request.bounded
  rw [HasRoom] at noRoom
  simp only [Heap.allocate]
  rewrite [derived_natCast (by omega), if_neg (by omega), if_neg noRoom]
  rcases heap.collect world caller (rounds + 1) request.size with _ | ⟨_ | _ | _, _⟩ <;> rfl

/-- A block of so many zero bytes behind all objects, once there have been collections. -/
structure TakesBlock (world : Nat → Collection) (size : Nat) (heap : Heap) (block : Nat)
    (heap' : Heap) : Prop where
  layout : Layout { heap' with inlineAllocationTop := block }
  survives : Survives world heap heap'
  top : heap'.inlineAllocationTop = block + size
  within : block + size ≤ heap'.inlineAllocationEnd
  cleared : Cleared { heap' with inlineAllocationTop := block }

/-- There is no room for so many bytes, although a collection has gone over the whole heap. -/
structure RunsOut (world : Nat → Collection) (size : Nat) (heap heap' : Heap) : Prop where
  layout : Layout heap'
  survives : Survives world heap heap'
  collected : heap.collections < heap'.collections
  lastMarked : LastMarked world heap'
  noRoom : heap'.heapCapacity < bytes heap'.objects + size
  cleared : Cleared heap'

theorem takesBlock_of_hasRoom
    (layout : Layout heap')
    (survives : Survives world heap heap')
    {size : Nat}
    (room : HasRoom size heap')
    (cleared : Cleared heap') :
    TakesBlock world size heap heap'.inlineAllocationTop
      { heap' with inlineAllocationTop := heap'.inlineAllocationTop + size } :=
  { layout := layout
    survives := { survives with }
    top := rfl
    within := room
    cleared := cleared }

/-- Before the VM has been set up, a block without room ends it. -/
theorem allocate_beforeMain
    (layout : Layout heap)
    (beforeMain : heap.beforeMain = true)
    (request : Request)
    (noRoom : ¬ HasRoom request.size heap)
    (world : Nat → Collection)
    (caller : Caller)
    (rounds : Nat) :
    heap.allocate world caller request.size (rounds + 1) = some (.exited, heap) := by
  rw [allocate_of_not_hasRoom layout request noRoom]
  simp only [Heap.collect, beforeMain, if_true]

/-- Once the VM has been set up, two rounds are enough for a block or for an error. -/
theorem allocate_ends
    (layout : Layout heap)
    (cleared : Cleared heap)
    (isSetUp : heap.beforeMain = false)
    (world : Nat → Collection)
    (caller : Caller)
    (request : Request) :
    ∃ ending heap',
      (∀ rounds,
        heap.allocate world caller request.size (rounds + 2) = some (ending, heap')) ∧
        ((∃ block, ending = .returned block ∧ TakesBlock world request.size heap block heap') ∨
          ending = .outOfMemory ∧ RunsOut world request.size heap heap') := by
  by_cases room : HasRoom request.size heap
  · refine ⟨_, _, fun rounds => allocate_of_hasRoom layout room world caller (rounds + 1),
      Or.inl ⟨_, rfl, ?_⟩⟩
    exact takesBlock_of_hasRoom layout (.of_sameObjects (SameObjects.refl heap)) room cleared
  · obtain ⟨ending, last, ends, concludes⟩ := layout.collect isSetUp world caller request.size
    rw [request.alignAllocationSize_eq] at concludes
    have lastLayout := concludes.layout
    have survives : Survives world heap last.clearInlineAllocationArea :=
      concludes.survives.trans
        (.of_sameObjects (SameObjects.refl last).clearInlineAllocationArea)
    cases ending with
    | exited => exact absurd rfl concludes.notExited
    | returned value =>
        have small := request.bounded
        have lastRoom := concludes.room rfl (by omega)
        refine ⟨_, _, ?_, Or.inl ⟨_, rfl, takesBlock_of_hasRoom
          lastLayout.clearInlineAllocationArea survives lastRoom
          (cleared_clearInlineAllocationArea last)⟩⟩
        intro rounds
        rw [allocate_of_not_hasRoom layout request room, ends (rounds + 1)]
        exact allocate_of_hasRoom lastLayout.clearInlineAllocationArea lastRoom world caller rounds
    | outOfMemory =>
        obtain ⟨lacking, marked, later⟩ := concludes.runsOut rfl
        have free := lastLayout.freeMemory_eq_bytes
        refine ⟨.outOfMemory, last.clearInlineAllocationArea, ?_, Or.inr ⟨rfl, ?_⟩⟩
        · intro rounds
          rw [allocate_of_not_hasRoom layout request room, ends (rounds + 1)]
        · refine ⟨lastLayout.clearInlineAllocationArea, survives, later,
            marked.of_sameObjects (SameObjects.refl last).clearInlineAllocationArea, ?_,
            cleared_clearInlineAllocationArea last⟩
          change last.heapCapacity < bytes last.objects + request.size
          omega

end PicoJvm.HeapSpace
