import PicoJvm.Memory.HeapCollecting

/-!
# Allocation over whole runs

From the creation of the heap on, every step keeps the layout, the cleared area for the next blocks
and the numbers of the objects apart. So each request ends with a block or with an error.
-/

namespace PicoJvm.HeapSpace

open PicoJvm.Lib.Machine

/-! ## Steps -/

/-- The options and the sizes that the heap is created from. -/
structure Configuration where
  heapCapacity : Nat
  romHeapBlockSize : Nat
  bitvChunkSize : Nat

/-- `OsMemory_allocate_chunk`. -/
def allocateChunk (malloc : Nat → Option Nat) (maxSize : Nat) : Option Nat :=
  (malloc (maxSize + alignment)).map alignUp

/-- `ObjectHeap::create`, with all of the capacity from the start, and `adjust_heap_size` of the new
heap. -/
def create (malloc : Nat → Option Nat) (memory : Nat → Nat) (configuration : Configuration) :
    Option Heap :=
  let heapCapacity := alignDown configuration.heapCapacity
  let minSizeForRom := configuration.romHeapBlockSize + 7 * 1024
  if heapCapacity < minSizeForRom ∨ heapCapacity = 0 then
    none
  else
    match allocateChunk malloc (heapCapacity + minimumMarkingStackSize),
      allocateChunk malloc configuration.bitvChunkSize with
    | some heapStart, some _ =>
        some (Heap.clearInlineAllocationArea {
          heapStart := heapStart
          heapSize := heapCapacity
          heapCapacity := heapCapacity
          heapTop := heapStart + heapCapacity
          youngGenerationTargetSize := (heapCapacity / youngGenerationTarget + 3) / 4 * 4
          collectionAreaStart := heapStart
          oldGenerationEnd := heapStart
          youngGenerationStart := heapStart
          inlineAllocationTop := heapStart
          inlineAllocationEnd := heapStart + heapCapacity
          compilerAreaStart := heapStart + heapCapacity
          beforeMain := true
          oldGeneration := []
          youngGeneration := []
          memory := memory
          collections := 0 })
    | _, _ => none

namespace Heap

/-- `ROM::link_static`: the objects of the image are copied to the empty heap. -/
def linkStatic (romObjects : List Obj) (image : Nat → Nat) (heap : Heap) : Option Heap :=
  if heap.freeMemory ≤ bytes romObjects then
    none
  else
    let top := derived heap.inlineAllocationTop (bytes romObjects)
    some { heap with
      inlineAllocationEnd := heap.compilerAreaStart
      inlineAllocationTop := top
      collectionAreaStart := top
      oldGenerationEnd := top
      youngGenerationStart := top
      oldGeneration := romObjects
      memory := fun address =>
        if heap.inlineAllocationTop ≤ address ∧ address < top then image address
        else heap.memory address }

/-- The caller of `allocate` makes an object of the block. -/
def setUpObject (number size block : Nat) (content : Nat → Nat) (heap : Heap) : Heap :=
  { heap with
    youngGeneration := heap.youngGeneration ++ [{ object := some number, size := size }]
    memory := fun address =>
      if block ≤ address ∧ address < block + size then content address else heap.memory address }

/-- `jvm_garbage_collect`. -/
def jvmGarbageCollect (world : Nat → Collection) (caller : Caller) (rounds : Nat)
    (collectsCompilerArea youngSpaceOnly : Bool) (requestedFreeBytes : Nat) (heap : Heap) :
    Option Heap :=
  if collectsCompilerArea = false then
    let heap := if youngSpaceOnly then heap else heap.forceFullCollect
    some (heap.internalCollect world requestedFreeBytes).clearInlineAllocationArea
  else if youngSpaceOnly = false then
    (heap.collect world caller rounds requestedFreeBytes).map fun result =>
      result.2.clearInlineAllocationArea
  else
    some (heap.internalCollect world requestedFreeBytes).clearInlineAllocationArea

end Heap

/-- The heaps that runs of the VM come to. -/
inductive Reaches (malloc : Nat → Option Nat) (world : Nat → Collection) : Heap → Prop
  | created {memory : Nat → Nat} {configuration : Configuration} {heap : Heap}
      (isCreated : create malloc memory configuration = some heap) :
      Reaches malloc world heap
  | linked {memory : Nat → Nat} {configuration : Configuration} {heap heap' : Heap}
      {romObjects : List Obj} {image : Nat → Nat}
      (isCreated : create malloc memory configuration = some heap)
      (distinct : (romObjects.filterMap Obj.object).Nodup)
      (isLinked : heap.linkStatic romObjects image = some heap') :
      Reaches malloc world heap'
  | setUp {heap : Heap}
      (reaches : Reaches malloc world heap) :
      Reaches malloc world { heap with beforeMain := false }
  | allocated {heap heap' : Heap} {caller : Caller} {request : Request} {rounds block number : Nat}
      (reaches : Reaches malloc world heap)
      (ended :
        heap.allocate world caller request.size (rounds + 2) = some (.returned block, heap') ∨
          heap.allocateRaw world caller request.size (rounds + 2) =
            some (.returned block, heap'))
      (fresh : number ∉ heap'.numbers)
      (content : Nat → Nat) :
      Reaches malloc world (heap'.setUpObject number request.size block content)
  | failed {heap heap' : Heap} {caller : Caller} {request : Request} {rounds : Nat}
      (reaches : Reaches malloc world heap)
      (ended :
        heap.allocate world caller request.size (rounds + 2) = some (.outOfMemory, heap') ∨
          heap.allocateRaw world caller request.size (rounds + 2) =
            some (.outOfMemory, heap')) :
      Reaches malloc world heap'
  | stored {heap : Heap} {memory : Nat → Nat}
      (reaches : Reaches malloc world heap)
      (untouched :
        ∀ address, heap.inlineAllocationTop ≤ address → address < heap.inlineAllocationEnd →
          memory address = heap.memory address) :
      Reaches malloc world { heap with memory := memory }
  | forced {heap : Heap}
      (reaches : Reaches malloc world heap) :
      Reaches malloc world heap.forceFullCollect
  | safelyCollected {heap heap' : Heap} {caller : Caller} {rounds minFreeAfterCollection : Nat}
      {ending : Ending Unit}
      (reaches : Reaches malloc world heap)
      (ended :
        heap.safeCollect world caller (rounds + 1) minFreeAfterCollection = some (ending, heap'))
      (notExited : ending ≠ .exited) :
      Reaches malloc world heap'
  | garbageCollected {heap heap' : Heap} {caller : Caller} {rounds requestedFreeBytes : Nat}
      {collectsCompilerArea youngSpaceOnly : Bool}
      (reaches : Reaches malloc world heap)
      (isSetUp : heap.beforeMain = false)
      (ended :
        heap.jvmGarbageCollect world caller (rounds + 1) collectsCompilerArea youngSpaceOnly
          requestedFreeBytes = some heap') :
      Reaches malloc world heap'

/-! ## What every step keeps -/

/-- The heap between two steps. -/
structure Invariant (heap : Heap) : Prop where
  layout : Layout heap
  cleared : Cleared heap
  distinct : heap.numbers.Nodup

section Steps

variable {malloc : Nat → Option Nat} {world : Nat → Collection} {heap heap' : Heap}

theorem allocateChunk_bounds
    (inSram : ∀ size pointer, malloc size = some pointer → pointer + size ≤ 1073741824)
    {maxSize chunk : Nat}
    (allocated : allocateChunk malloc maxSize = some chunk) :
    chunk + maxSize ≤ 1073741824 := by
  obtain ⟨pointer, isPointer, isChunk⟩ := Option.map_eq_some_iff.mp allocated
  have bounded := inSram _ _ isPointer
  have rounded : unsigned ((pointer : Int) + ((alignment : Int) - 1)) = pointer + 127 := by
    rw [show (pointer : Int) + ((alignment : Int) - 1) = ((pointer + 127 : Nat) : Int) by
      simp only [alignment]
      omega]
    exact unsigned_natCast (by omega)
  rw [alignUp, rounded] at isChunk
  simp only [alignDown, alignment] at isChunk bounded
  omega

theorem invariant_created
    (inSram : ∀ size pointer, malloc size = some pointer → pointer + size ≤ 1073741824)
    {memory : Nat → Nat} {configuration : Configuration}
    (isCreated : create malloc memory configuration = some heap) :
    Invariant heap ∧ heap.objects = [] ∧ heap.beforeMain = true ∧
      heap.inlineAllocationEnd = heap.compilerAreaStart ∧
        heap.heapCapacity = alignDown configuration.heapCapacity := by
  simp only [create] at isCreated
  split at isCreated
  · exact absurd isCreated (by simp)
  split at isCreated
  · next heapStart _ chunk _ =>
      have bounded := allocateChunk_bounds inSram chunk
      cases isCreated
      refine ⟨⟨?_, cleared_clearInlineAllocationArea _, List.nodup_nil⟩, rfl, rfl, rfl, rfl⟩
      apply Layout.clearInlineAllocationArea
      have aligned : alignDown configuration.heapCapacity % 128 = 0 :=
        Nat.mul_mod_left _ _
      constructor
      case toChunk =>
        refine ⟨rfl, rfl, rfl, aligned, rfl, ?_⟩
        rw [Nat.add_assoc]
        exact bounded
      case oldGeneration => simp
      case youngStart => rfl
      case youngGeneration => simp
      case collectionArea => exact Or.inl rfl
      case allocationTop => exact Nat.le_add_right _ _
      case allocationEnd => exact Nat.le_refl _
  · exact absurd isCreated (by simp)

theorem invariant_linked
    (invariant : Invariant heap)
    (empty : heap.objects = [])
    (areaEnd : heap.inlineAllocationEnd = heap.compilerAreaStart)
    {romObjects : List Obj} {image : Nat → Nat}
    (distinct : (romObjects.filterMap Obj.object).Nodup)
    (isLinked : heap.linkStatic romObjects image = some heap') :
    Invariant heap' := by
  have layout := invariant.layout
  have below := layout.below
  have tiled := layout.tiled
  rw [empty, bytes_nil] at tiled
  have noYoung : heap.youngGeneration = [] := (List.append_eq_nil_iff.mp empty).2
  simp only [Heap.linkStatic] at isLinked
  split at isLinked
  · exact absurd isLinked (by simp)
  · next fits =>
      rw [layout.freeMemory_eq] at fits
      have top : derived heap.inlineAllocationTop (bytes romObjects) =
          heap.inlineAllocationTop + bytes romObjects := derived_natCast (by omega)
      cases isLinked
      simp only [top]
      refine ⟨?_, ?_, ?_⟩
      · constructor
        case toChunk => exact { layout.toChunk with }
        case oldGeneration =>
          change heap.inlineAllocationTop + bytes romObjects = heap.heapStart + bytes romObjects
          omega
        case youngStart => rfl
        case youngGeneration =>
          simp [noYoung]
        case collectionArea => exact Or.inr rfl
        case allocationTop =>
          change heap.inlineAllocationTop + bytes romObjects ≤ heap.compilerAreaStart
          omega
        case allocationEnd => exact Nat.le_refl _
      · intro address above inArea
        have outside :
            ¬ (heap.inlineAllocationTop ≤ address ∧
              address < heap.inlineAllocationTop + bytes romObjects) :=
          fun inside => absurd above (Nat.not_le.mpr inside.2)
        change (if _ then _ else _) = _
        rw [if_neg outside]
        exact invariant.cleared address (Nat.le_trans (Nat.le_add_right _ _) above)
          (areaEnd ▸ inArea)
      · simpa [Heap.numbers, Heap.objects, noYoung] using distinct

/-- How a request ends. -/
theorem Invariant.allocate_result
    (invariant : Invariant heap)
    {caller : Caller} {request : Request} {rounds : Nat} {ending : Ending Nat}
    (ended : heap.allocate world caller request.size (rounds + 2) = some (ending, heap')) :
    (∃ block, ending = .returned block ∧ TakesBlock world request.size heap block heap') ∨
      (ending = .outOfMemory ∧ RunsOut world request.size heap heap') ∨
        (ending = .exited ∧ heap.beforeMain = true) := by
  cases beforeMain : heap.beforeMain with
  | false =>
      obtain ⟨ending', last, ends, result⟩ :=
        allocate_ends invariant.layout invariant.cleared beforeMain world caller request
      rw [ends rounds] at ended
      cases ended
      exact result.imp_right Or.inl
  | true =>
      by_cases room : HasRoom request.size heap
      · rw [allocate_of_hasRoom invariant.layout room] at ended
        cases ended
        exact Or.inl ⟨_, rfl, takesBlock_of_hasRoom invariant.layout
          (.of_sameObjects (SameObjects.refl heap)) room invariant.cleared⟩
      · rw [allocate_beforeMain invariant.layout beforeMain request room] at ended
        cases ended
        exact Or.inr (Or.inr ⟨rfl, rfl⟩)

/-- Blocks that are not cleared are taken in the same way. -/
theorem Layout.allocateRaw_eq
    (layout : Layout heap)
    (world : Nat → Collection)
    (caller : Caller)
    (request : Request)
    (rounds : Nat) :
    heap.allocateRaw world caller request.size (rounds + 1) =
      heap.allocate world caller request.size (rounds + 1) := by
  have below := layout.below
  have allocationEnd := layout.allocationEnd
  have fits := layout.fits
  have bounded := request.bounded
  have newTop :
      derived heap.inlineAllocationTop request.size = heap.inlineAllocationTop + request.size :=
    derived_natCast (by omega)
  simp only [Heap.allocateRaw, newTop]
  split
  · next room => rw [allocate_of_hasRoom layout room.1]
  · rfl

theorem Invariant.setUpObject
    {size block number : Nat}
    (distinct : heap.numbers.Nodup)
    (takes : TakesBlock world size heap block heap')
    (fresh : number ∉ heap'.numbers)
    (content : Nat → Nat) :
    Invariant (heap'.setUpObject number size block content) := by
  have layout := takes.layout
  have top := takes.top
  refine ⟨?_, ?_, ?_⟩
  · constructor
    case toChunk => exact { layout.toChunk with }
    case oldGeneration => exact layout.oldGeneration
    case youngStart => exact layout.youngStart
    case youngGeneration =>
      have blockIs := layout.youngGeneration
      simp only [Heap.setUpObject, bytes_append, bytes_cons, bytes_nil] at blockIs ⊢
      omega
    case collectionArea => exact layout.collectionArea
    case allocationTop =>
      simp only [Heap.setUpObject, top]
      exact takes.within
    case allocationEnd => exact layout.allocationEnd
  · intro address above inArea
    have behind : block + size ≤ address := by
      rw [← top]
      exact above
    change (if _ then _ else _) = _
    rw [if_neg (by omega)]
    exact takes.cleared address (Nat.le_trans (Nat.le_add_right block size) behind) inArea
  · have isDistinct : heap'.numbers.Nodup := distinct.sublist takes.survives.numbers
    rw [Heap.numbers, Heap.setUpObject, Heap.objects, ← List.append_assoc, List.filterMap_append]
    rw [Heap.numbers, Heap.objects] at isDistinct fresh
    refine List.nodup_append.mpr ⟨isDistinct, by simp, ?_⟩
    intro number' listed number'' isNew same
    have isNumber : number'' = number := by simpa using isNew
    rw [same, isNumber] at listed
    exact fresh listed

theorem Invariant.of_runsOut
    {size : Nat}
    (distinct : heap.numbers.Nodup)
    (runsOut : RunsOut world size heap heap') :
    Invariant heap' :=
  ⟨runsOut.layout, runsOut.cleared, distinct.sublist runsOut.survives.numbers⟩

/-- After collections the area is cleared. -/
theorem Invariant.cleared_of_survives
    (distinct : heap.numbers.Nodup)
    (layout : Layout heap')
    (survives : Survives world heap heap') :
    Invariant heap'.clearInlineAllocationArea :=
  ⟨layout.clearInlineAllocationArea, cleared_clearInlineAllocationArea _,
    distinct.sublist survives.numbers⟩

theorem Invariant.internalCollect
    (invariant : Invariant heap)
    (world : Nat → Collection)
    (minFreeAfterCollection : Nat) :
    Invariant (heap.internalCollect world minFreeAfterCollection).clearInlineAllocationArea :=
  .cleared_of_survives invariant.distinct
    (invariant.layout.internalCollect world minFreeAfterCollection).1
    (survives_internalCollect world minFreeAfterCollection heap)

theorem Invariant.forceFullCollect (invariant : Invariant heap) : Invariant heap.forceFullCollect :=
  ⟨invariant.layout.forceFullCollect, invariant.cleared, invariant.distinct⟩

theorem Invariant.jvmGarbageCollect
    (invariant : Invariant heap)
    (isSetUp : heap.beforeMain = false)
    {caller : Caller} {rounds requestedFreeBytes : Nat} {collectsCompilerArea youngSpaceOnly : Bool}
    (ended :
      heap.jvmGarbageCollect world caller (rounds + 1) collectsCompilerArea youngSpaceOnly
        requestedFreeBytes = some heap') :
    Invariant heap' := by
  have collected :
      ∀ before, Invariant before →
        some (before.internalCollect world requestedFreeBytes).clearInlineAllocationArea =
            some heap' →
          Invariant heap' := by
    intro before holds same
    rw [← Option.some.inj same]
    exact holds.internalCollect world requestedFreeBytes
  simp only [Heap.jvmGarbageCollect] at ended
  cases collectsCompilerArea with
  | false =>
      cases youngSpaceOnly with
      | false => exact collected _ invariant.forceFullCollect ended
      | true => exact collected _ invariant ended
  | true =>
      cases youngSpaceOnly with
      | true => exact collected _ invariant ended
      | false =>
          obtain ⟨ending, last, ends, concludes⟩ :=
            invariant.layout.collect isSetUp world caller requestedFreeBytes
          simp only [Bool.true_eq_false, if_false, if_true, ends rounds, Option.map_some] at ended
          cases ended
          exact .cleared_of_survives invariant.distinct concludes.layout concludes.survives

theorem Invariant.safeCollect
    (invariant : Invariant heap)
    {caller : Caller} {rounds minFreeAfterCollection : Nat} {ending : Ending Unit}
    (ended :
      heap.safeCollect world caller (rounds + 1) minFreeAfterCollection = some (ending, heap'))
    (notExited : ending ≠ .exited) :
    Invariant heap' := by
  rw [Heap.safeCollect] at ended
  cases beforeMain : heap.beforeMain with
  | true =>
      simp only [Heap.collect, beforeMain, if_true, Option.map_some, Option.some.injEq,
        Prod.mk.injEq] at ended
      exact absurd ended.1.symm notExited
  | false =>
      obtain ⟨ending', last, ends, concludes⟩ :=
        invariant.layout.collect beforeMain world caller minFreeAfterCollection
      rw [ends rounds] at ended
      cases ended
      exact .cleared_of_survives invariant.distinct concludes.layout concludes.survives

/-- Every heap that a run comes to is laid out as it should be, provided `malloc` gives memory of
the region of the SRAM, which ends at `0x40000000`. -/
theorem Reaches.invariant
    (inSram : ∀ size pointer, malloc size = some pointer → pointer + size ≤ 1073741824)
    (reaches : Reaches malloc world heap) :
    Invariant heap := by
  induction reaches with
  | created isCreated => exact (invariant_created inSram isCreated).1
  | linked isCreated distinct isLinked =>
      obtain ⟨invariant, empty, _, areaEnd, _⟩ := invariant_created inSram isCreated
      exact invariant_linked invariant empty areaEnd distinct isLinked
  | setUp _ inductionHypothesis =>
      exact ⟨{ inductionHypothesis.layout with }, inductionHypothesis.cleared,
        inductionHypothesis.distinct⟩
  | allocated _ ended fresh content inductionHypothesis =>
      rw [inductionHypothesis.layout.allocateRaw_eq, or_self] at ended
      rcases inductionHypothesis.allocate_result ended with
        ⟨block, isBlock, takes⟩ | ⟨impossible, _⟩ | ⟨impossible, _⟩
      · cases isBlock
        exact .setUpObject inductionHypothesis.distinct takes fresh content
      · cases impossible
      · cases impossible
  | failed _ ended inductionHypothesis =>
      rw [inductionHypothesis.layout.allocateRaw_eq, or_self] at ended
      rcases inductionHypothesis.allocate_result ended with
        ⟨block, impossible, _⟩ | ⟨_, runsOut⟩ | ⟨impossible, _⟩
      · cases impossible
      · exact .of_runsOut inductionHypothesis.distinct runsOut
      · cases impossible
  | stored _ untouched inductionHypothesis =>
      refine ⟨{ inductionHypothesis.layout with }, ?_, inductionHypothesis.distinct⟩
      intro address above below
      exact (untouched address above below).trans (inductionHypothesis.cleared address above below)
  | forced _ inductionHypothesis => exact inductionHypothesis.forceFullCollect
  | safelyCollected _ ended notExited inductionHypothesis =>
      exact inductionHypothesis.safeCollect ended notExited
  | garbageCollected _ isSetUp ended inductionHypothesis =>
      exact inductionHypothesis.jvmGarbageCollect isSetUp ended

end Steps

/-! ## Requests -/

/-- The addresses of objects that lie one behind the other. -/
def placedFrom : (start : Nat) → List Obj → List (Nat × Obj)
  | _, [] => []
  | start, obj :: rest => (start, obj) :: placedFrom (start + obj.size) rest

/-- Where the objects are. -/
def Heap.placed (heap : Heap) : List (Nat × Obj) :=
  placedFrom heap.heapStart heap.objects

theorem placedFrom_le
    {start address : Nat} {objects : List Obj} {obj : Obj}
    (placed : (address, obj) ∈ placedFrom start objects) :
    address + obj.size ≤ start + bytes objects := by
  induction objects generalizing start with
  | nil =>
      exact absurd placed List.not_mem_nil
  | cons first rest inductionHypothesis =>
      rw [bytes_cons]
      rcases List.mem_cons.mp placed with isFirst | inRest
      · cases isFirst
        omega
      · have within := inductionHypothesis inRest
        omega

/-- `ArrayDesc::allocation_size`. -/
def arraySize (length scale : Nat) : Nat :=
  alignAllocationSize (8 + length * scale)

theorem arraySize_le
    {length scale : Nat}
    (short : length ≤ 0x08000000)
    (narrow : scale ≤ 8) :
    arraySize length scale ≤ 1073741832 := by
  have product : length * scale ≤ 0x08000000 * 8 := Nat.mul_le_mul short narrow
  have rounded : unsigned (((8 + length * scale : Nat) : Int) + 3) = 8 + length * scale + 3 := by
    rw [show ((8 + length * scale : Nat) : Int) + 3 = ((8 + length * scale + 3 : Nat) : Int) by
      omega]
    exact unsigned_natCast (by omega)
  rw [arraySize, alignAllocationSize, rounded]
  omega

/-- What `generic_allocate_array` asks for when it has found the length short enough. -/
def Request.ofArray (length scale : Nat) (short : length ≤ 0x08000000) (narrow : scale ≤ 8) :
    Request where
  size := arraySize length scale
  aligned := Nat.mul_mod_left _ _
  bounded := arraySize_le short narrow

/-- A zeroed block of so many bytes behind all objects. The objects are those from before, but for
collections. -/
structure ReturnsBlock (world : Nat → Collection) (size : Nat) (heap : Heap) (block : Nat)
    (heap' : Heap) : Prop where
  survives : Survives world heap heap'
  zeroed : ∀ address, block ≤ address → address < block + size → heap'.memory address = 0
  apart : ∀ address obj, (address, obj) ∈ heap'.placed → address + obj.size ≤ block
  within : heap'.heapStart ≤ block ∧ block + size ≤ heap'.heapTop
  top : heap'.inlineAllocationTop = block + size

theorem TakesBlock.returnsBlock
    {world : Nat → Collection} {size block : Nat} {heap heap' : Heap}
    (takes : TakesBlock world size heap block heap') :
    ReturnsBlock world size heap block heap' := by
  have tiled : block = heap'.heapStart + bytes heap'.objects := takes.layout.tiled
  have areaEnd : heap'.inlineAllocationEnd ≤ heap'.compilerAreaStart := takes.layout.allocationEnd
  have chunkEnd : heap'.compilerAreaStart = heap'.heapTop := takes.layout.compilerArea
  have within := takes.within
  refine ⟨takes.survives, ?_, ?_, ⟨by omega, by omega⟩, takes.top⟩
  · intro address above below
    exact takes.cleared address above (Nat.lt_of_lt_of_le below within)
  · intro address obj placed
    rw [tiled]
    exact placedFrom_le placed

/-- Within two rounds there is a block, or an error after a collection that has gone over the whole
heap and has not left enough. -/
def EndsWithBlockOrError (world : Nat → Collection) (caller : Caller) (request : Request)
    (heap : Heap) : Prop :=
  ∃ ending heap',
    (∀ rounds, heap.allocate world caller request.size (rounds + 2) = some (ending, heap')) ∧
      ((∃ block, ending = .returned block ∧ ReturnsBlock world request.size heap block heap') ∨
        ending = .outOfMemory ∧ RunsOut world request.size heap heap')

/-- Every request ends with a block or an error. Only before the VM has been set up does a block
without room end the VM. -/
theorem allocation_holds
    (malloc : Nat → Option Nat)
    (inSram : ∀ size pointer, malloc size = some pointer → pointer + size ≤ 1073741824)
    (world : Nat → Collection)
    (heap : Heap)
    (reaches : Reaches malloc world heap)
    (caller : Caller)
    (request : Request) :
    EndsWithBlockOrError world caller request heap ∨
      heap.beforeMain = true ∧ ¬ HasRoom request.size heap ∧
        ∀ rounds,
          heap.allocate world caller request.size (rounds + 1) = some (.exited, heap) := by
  have invariant := reaches.invariant inSram
  cases beforeMain : heap.beforeMain with
  | false =>
      left
      obtain ⟨ending, last, ends, result⟩ :=
        allocate_ends invariant.layout invariant.cleared beforeMain world caller request
      refine ⟨ending, last, ends, result.imp_left ?_⟩
      intro returned
      obtain ⟨block, isBlock, takes⟩ := returned
      exact ⟨block, isBlock, takes.returnsBlock⟩
  | true =>
      by_cases room : HasRoom request.size heap
      · left
        have takes : TakesBlock world request.size heap _ _ :=
          takesBlock_of_hasRoom invariant.layout (.of_sameObjects (SameObjects.refl heap)) room
            invariant.cleared
        exact ⟨_, _, fun rounds => allocate_of_hasRoom invariant.layout room world caller _,
          Or.inl ⟨_, rfl, takes.returnsBlock⟩⟩
      · exact Or.inr ⟨rfl, room, fun rounds =>
          allocate_beforeMain invariant.layout beforeMain request room world caller rounds⟩

section Example

/-- Memory from the start of the SRAM, for what fits. -/
def sramMalloc (size : Nat) : Option Nat :=
  if size ≤ 270336 then some 0x20000000 else none

theorem sramMalloc_le (size pointer : Nat) (isPointer : sramMalloc size = some pointer) :
    pointer + size ≤ 1073741824 := by
  rw [sramMalloc] at isPointer
  split at isPointer
  · cases isPointer
    omega
  · cases isPointer

def nothingMarked (_ : Nat) : Collection where
  marked := fun _ => false
  memory := fun _ => 0
  spare := fun _ => 0

def nativeCaller : Caller where
  lastThread := true
  hasJavaFrame := false
  isJavaFrame := false
  isNative := false
  canRedo := false

def smallConfiguration : Configuration where
  heapCapacity := 64 * 1024
  romHeapBlockSize := 8 * 1024
  bitvChunkSize := 4 * 1024

theorem smallConfiguration_created :
    ∃ heap, create sramMalloc (fun _ => 1) smallConfiguration = some heap :=
  Option.isSome_iff_exists.mp (by decide)

theorem allocation_holds_small :
    ∃ heap, Reaches sramMalloc nothingMarked heap ∧
      (EndsWithBlockOrError nothingMarked nativeCaller ⟨16, by decide, by decide⟩ heap ∨
        heap.beforeMain = true ∧ ¬ HasRoom 16 heap ∧
          ∀ rounds,
            heap.allocate nothingMarked nativeCaller 16 (rounds + 1) = some (.exited, heap)) := by
  obtain ⟨heap, isCreated⟩ := smallConfiguration_created
  have reaches : Reaches sramMalloc nothingMarked heap := .created isCreated
  exact ⟨heap, reaches, allocation_holds sramMalloc sramMalloc_le nothingMarked heap reaches
    nativeCaller ⟨16, by decide, by decide⟩⟩

/-- A block as large as the heap ends the VM while it is being set up. -/
theorem bootstrap_exits :
    ∃ heap, Reaches sramMalloc nothingMarked heap ∧
      ¬ EndsWithBlockOrError nothingMarked nativeCaller ⟨64 * 1024 + 4, by decide, by decide⟩
        heap := by
  obtain ⟨heap, isCreated⟩ := smallConfiguration_created
  obtain ⟨invariant, _, beforeMain, _, capacity⟩ := invariant_created sramMalloc_le isCreated
  refine ⟨heap, .created isCreated, ?_⟩
  have noRoom : ¬ HasRoom (64 * 1024 + 4) heap := by
    have layout := invariant.layout
    have tiled := layout.tiled
    have areaEnd := layout.allocationEnd
    have chunkEnd := layout.compilerArea
    have top := layout.heapTop
    have size := layout.toChunk.capacity
    have small : alignDown smallConfiguration.heapCapacity = 65536 := by decide
    rw [HasRoom]
    omega
  intro holds
  obtain ⟨ending, last, ends, result⟩ := holds
  have exited :=
    allocate_beforeMain invariant.layout beforeMain ⟨64 * 1024 + 4, by decide, by decide⟩ noRoom
      nothingMarked nativeCaller 1
  rw [ends 0] at exited
  cases exited
  rcases result with ⟨_, impossible, _⟩ | ⟨impossible, _⟩
  · cases impossible
  · cases impossible

end Example

end PicoJvm.HeapSpace
