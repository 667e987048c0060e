import Mathlib.Algebra.BigOperators.Group.List.Basic
import PicoJvm.Lib.Machine

/-!
# The space of the object heap

Where the generations of the heap end, and how `ObjectHeap::allocate` takes a block from the young
generation or collects until there is room. What a collection finds marked and what it leaves in the
bytes of the heap are given by a sequence of collections. There are no isolates, no compiler and no
large objects, and the young generation follows the old one.
-/

namespace PicoJvm.HeapSpace

open PicoJvm.Lib.Machine

/-! ## Addresses and sizes -/

/-- `DISTANCE`, of type `jint`. -/
def distance (low high : Nat) : Int :=
  signed ((high : Int) - low)

/-- `DERIVED`. -/
def derived (pointer : Nat) (offset : Int) : Nat :=
  unsigned (pointer + offset)

/-- `align_allocation_size`: up to whole words. -/
def alignAllocationSize (size : Nat) : Nat :=
  unsigned (size + 3) / 4 * 4

/-- `LargeObject::alignment`. -/
def alignment : Nat :=
  128

/-- `ObjectHeap::align_down`. -/
def alignDown (size : Nat) : Nat :=
  size / alignment * alignment

/-- `ObjectHeap::align_up`. -/
def alignUp (size : Nat) : Nat :=
  alignDown (unsigned (size + (alignment - 1)))

/-- `MimimumMarkingStackSize` words. -/
def minimumMarkingStackSize : Nat :=
  8192

/-- `MinimumCompileSpace`. -/
def minimumCompileSpace : Int :=
  30 * 1024

/-- `YoungGenerationTarget`: the young generation is to be a fifth of the heap. -/
def youngGenerationTarget : Nat :=
  5

/-- `YoungGenerationSurvivalTargetPercentage`. -/
def youngGenerationSurvivalTargetPercentage : Nat :=
  10

/-! ## The heap -/

/-- An object is known by a number that it keeps when it is moved. A filler has none. -/
structure Obj where
  object : Option Nat
  size : Nat
  deriving DecidableEq, Repr

def bytes (objects : List Obj) : Nat :=
  (objects.map Obj.size).sum

/-- What the marking of one collection finds, what its phases leave in the bytes of the heap and of
the marking stack, and how many bytes an execution stack is found to have too many. -/
structure Collection where
  marked : Nat → Bool
  memory : Nat → Nat
  spare : Nat → Nat

/-- `test_bit_for`, of an object. Nothing refers to a filler. -/
def Collection.marks (collection : Collection) (obj : Obj) : Bool :=
  obj.object.any collection.marked

/-- The variables of `ObjectHeap`, the objects of both generations in the order of their addresses,
and the bytes of the memory. The collections are counted. -/
structure Heap where
  heapStart : Nat
  heapSize : Nat
  heapCapacity : Nat
  heapTop : Nat
  youngGenerationTargetSize : Nat
  collectionAreaStart : Nat
  oldGenerationEnd : Nat
  youngGenerationStart : Nat
  inlineAllocationTop : Nat
  inlineAllocationEnd : Nat
  compilerAreaStart : Nat
  beforeMain : Bool
  oldGeneration : List Obj
  youngGeneration : List Obj
  memory : Nat → Nat
  collections : Nat

namespace Heap

def objects (heap : Heap) : List Obj :=
  heap.oldGeneration ++ heap.youngGeneration

/-- The numbers of the objects. -/
def numbers (heap : Heap) : List Nat :=
  heap.objects.filterMap Obj.object

/-- `free_memory`. -/
def freeMemory (heap : Heap) : Nat :=
  unsigned (distance heap.oldGenerationEnd heap.youngGenerationStart +
    distance heap.inlineAllocationTop heap.compilerAreaStart)

/-- `clear_inline_allocation_area`. -/
def clearInlineAllocationArea (heap : Heap) : Heap :=
  { heap with
    memory := fun address =>
      if heap.inlineAllocationTop ≤ address ∧ address < heap.inlineAllocationEnd then 0
      else heap.memory address }

/-- `force_full_collect`. -/
def forceFullCollect (heap : Heap) : Heap :=
  { heap with collectionAreaStart := heap.heapStart }

/-! ## Boundaries after a collection -/

/-- `set_collection_area_boundary_no_reuse`: all that has survived is old now. -/
def setCollectionAreaBoundaryNoReuse (minFreeAfterCollection : Nat) (heap : Heap) : Heap :=
  let targetSize := unsigned (heap.youngGenerationTargetSize + minFreeAfterCollection)
  let availableSize := unsigned (distance heap.inlineAllocationTop heap.compilerAreaStart)
  let targetSize := unsigned (targetSize + 3) / 4 * 4
  let targetSize := if availableSize < targetSize then availableSize else targetSize
  { heap with
    inlineAllocationEnd := derived heap.inlineAllocationTop targetSize
    oldGenerationEnd := heap.inlineAllocationTop
    collectionAreaStart := heap.inlineAllocationTop
    youngGenerationStart := heap.inlineAllocationTop
    oldGeneration := heap.objects
    youngGeneration := [] }

/-- The test `free_young_space < minimum_young_space`. -/
def lacksYoungSpace (minFreeAfterCollection : Nat) (heap : Heap) : Bool :=
  let freeYoungSpace :=
    signed (heap.inlineAllocationEnd - (heap.inlineAllocationTop + minFreeAfterCollection))
  let minimumYoungSpace := signed (min (heap.youngGenerationTargetSize / 4) (5 * 1024) : Nat)
  decide (freeYoungSpace < minimumYoungSpace)

/-- `set_collection_area_boundary`. -/
def setCollectionAreaBoundary (minFreeAfterCollection : Nat) (reusePreviousYoungSpace : Bool)
    (heap : Heap) : Heap :=
  let heap :=
    if reusePreviousYoungSpace then heap
    else heap.setCollectionAreaBoundaryNoReuse minFreeAfterCollection
  if heap.lacksYoungSpace minFreeAfterCollection then heap.forceFullCollect else heap

/-! ## One collection -/

/-- The decision of `internal_collect` to use the same young generation again. -/
def reusesYoungGeneration (minFreeAfterCollection compactionTop : Nat) (heap : Heap) : Bool :=
  let oldSize := unsigned (distance heap.collectionAreaStart heap.inlineAllocationEnd)
  let newSize := unsigned (distance heap.oldGenerationEnd compactionTop)
  let newFreeIfReuse :=
    unsigned (distance heap.youngGenerationStart heap.inlineAllocationTop - newSize)
  decide (heap.heapStart ≠ heap.collectionAreaStart ∧ minFreeAfterCollection ≤ newFreeIfReuse ∧
    minimumCompileSpace ≤ signed newFreeIfReuse ∧
    unsigned (newSize * 100) < unsigned (oldSize * youngGenerationSurvivalTargetPercentage))

/-- `_collection_area_start == _heap_start`. -/
def isFullCollect (heap : Heap) : Bool :=
  decide (heap.collectionAreaStart = heap.heapStart)

/-- The objects in front of the collection area. -/
def outside (heap : Heap) : List Obj :=
  if heap.isFullCollect then [] else heap.oldGeneration

/-- The objects of the collection area that are found marked. -/
def survivors (collection : Collection) (heap : Heap) : List Obj :=
  (if heap.isFullCollect then heap.objects else heap.youngGeneration).filter collection.marks

/-- `compact_objects`. -/
def compactObjects (collection : Collection) (heap : Heap) : Heap :=
  { heap with
    inlineAllocationTop := heap.collectionAreaStart + bytes (heap.survivors collection)
    oldGeneration := heap.outside
    youngGeneration := heap.survivors collection
    memory := collection.memory
    collections := heap.collections + 1 }

/-- `internal_collect`. The heap is not shrunk after it, as `OsMemory_heap_reduction_target` is the
size it has. -/
def internalCollect (world : Nat → Collection) (minFreeAfterCollection : Nat) (heap : Heap) :
    Heap :=
  let compacted := heap.compactObjects (world heap.collections)
  let reuse := heap.reusesYoungGeneration minFreeAfterCollection compacted.inlineAllocationTop
  compacted.setCollectionAreaBoundary minFreeAfterCollection reuse

/-! ## Growing -/

/-- `OsMemory_heap_expansion_target`. -/
def heapExpansionTarget (_currentSize _requiredSize maxSize : Nat) (_isFullCollect : Bool) : Nat :=
  maxSize

/-- `adjust_heap_size`, of a heap whose chunk has been allocated for its capacity. -/
def adjustHeapSize (targetHeapSize : Nat) (heap : Heap) : Option Heap :=
  let targetHeapSize := alignUp targetHeapSize
  if targetHeapSize ≤ heap.heapCapacity then
    some { heap with
      heapSize := targetHeapSize
      heapTop := heap.heapStart + targetHeapSize
      youngGenerationTargetSize := (targetHeapSize / youngGenerationTarget + 3) / 4 * 4 }
  else
    none

/-- `compact_and_move_compiler_area`, of the area without a compiler. -/
def compactAndMoveCompilerArea (compilerAreaShift : Int) (heap : Heap) : Heap :=
  let compilerAreaStart := derived heap.compilerAreaStart compilerAreaShift
  { heap with
    compilerAreaStart := compilerAreaStart
    inlineAllocationEnd :=
      if compilerAreaStart < heap.inlineAllocationEnd then compilerAreaStart
      else heap.inlineAllocationEnd }

/-- The end of `try_to_grow`: the next collection is not a full one, and the young generation is
expanded. -/
def expand (requestedFreeMemory : Int) (heap : Heap) : Heap :=
  let allocationTop := heap.inlineAllocationTop
  let allocationEnd := derived allocationTop requestedFreeMemory
  { heap with
    collectionAreaStart := allocationTop
    oldGenerationEnd := allocationTop
    youngGenerationStart := allocationTop
    oldGeneration := heap.objects
    youngGeneration := []
    inlineAllocationEnd :=
      if heap.compilerAreaStart < allocationEnd then heap.compilerAreaStart else allocationEnd }

/-- `try_to_grow`. -/
def tryToGrow (requestedFreeMemory : Int) (isFullCollect : Bool) (heap : Heap) : Heap :=
  let minHeapSizeNeeded :=
    signed (distance heap.heapStart heap.oldGenerationEnd +
      distance heap.youngGenerationStart heap.inlineAllocationTop + requestedFreeMemory)
  if (heap.heapCapacity : Int) < minHeapSizeNeeded then
    heap
  else
    let requestedFreeMemory :=
      if requestedFreeMemory < signed heap.youngGenerationTargetSize then
        signed heap.youngGenerationTargetSize
      else
        requestedFreeMemory
    let requiredFreeMemory := signed (requestedFreeMemory - heap.freeMemory)
    if requiredFreeMemory ≤ 0 then
      heap
    else
      let requiredHeapSize := unsigned (heap.heapSize + requiredFreeMemory)
      let newHeapSize :=
        heapExpansionTarget heap.heapSize requiredHeapSize heap.heapCapacity isFullCollect
      let heapSizeDeficit := signed ((requiredHeapSize : Int) - newHeapSize)
      if 0 < heapSizeDeficit ∧ isFullCollect = false then
        heap
      else
        match heap.adjustHeapSize newHeapSize with
        | none => heap
        | some adjusted =>
            (adjusted.compactAndMoveCompilerArea (distance heap.heapTop adjusted.heapTop)).expand
              requestedFreeMemory

end Heap

/-! ## When there is no room -/

/-- How an operation ends: it returns, `OutOfMemoryError` is pending, or the VM has been left. -/
inductive Ending (value : Type)
  | returned (value : value)
  | outOfMemory
  | exited
  deriving DecidableEq, Repr

/-- What the flags of `handle_out_of_memory` are found from. -/
structure Caller where
  lastThread : Bool
  hasJavaFrame : Bool
  isJavaFrame : Bool
  isNative : Bool
  canRedo : Bool

/-- `JVMSPI_ABORT`, `JVMSPI_IGNORE`, `JVMSPI_SUSPEND`, `JVMSPI_RETRY` and `JVMSPI_LAST_THREAD`. -/
inductive Flag
  | abort
  | ignore
  | suspend
  | retry
  | lastThread
  deriving DecidableEq, Repr

/-- The responses that are supported for a caller. -/
def Caller.flags (caller : Caller) : List Flag :=
  [.ignore, .retry] ++ (if caller.lastThread then [.lastThread] else []) ++
    if caller.hasJavaFrame then
      if caller.isJavaFrame then
        if caller.isNative then []
        else .abort :: if caller.canRedo then [.suspend] else []
      else
        [.abort]
    else
      []

/-- `JVMSPI_HandleOutOfMemory`. -/
def jvmspiHandleOutOfMemory (_flags : List Flag) : Flag :=
  .ignore

/-- The answer of the host. One that is not supported is filtered out, which is as `ignore`. -/
def Caller.action (caller : Caller) : Flag :=
  if jvmspiHandleOutOfMemory caller.flags ∈ caller.flags then
    jvmspiHandleOutOfMemory caller.flags
  else
    .ignore

namespace Heap

/-- `handle_out_of_memory`, for some rounds of its loop. -/
def handleOutOfMemory (world : Nat → Collection) (caller : Caller) (allocSize : Nat) :
    (rounds : Nat) → Heap → Option (Ending Unit × Heap)
  | 0, _ => none
  | rounds + 1, heap =>
      match caller.action with
      | .abort => some (.exited, heap)
      | .retry =>
          let heap := heap.forceFullCollect.internalCollect world allocSize
          if heap.freeMemory < allocSize then
            handleOutOfMemory world caller allocSize rounds heap
          else
            some (.returned (), heap)
      | .suspend | .ignore | .lastThread => some (.outOfMemory, heap)

/-- `shrink_object` of an execution stack: the end of it stays, behind a filler. -/
def shrinkObject (spare : Nat → Nat) (obj : Obj) : List Obj :=
  let diff := (obj.object.map spare).getD 0
  if 0 < diff ∧ diff < obj.size ∧ diff % 4 = 0 then
    [{ object := none, size := diff }, { obj with size := obj.size - diff }]
  else
    [obj]

/-- `Thread::shrink_execution_stacks`. -/
def shrinkExecutionStacks (spare : Nat → Nat) (heap : Heap) : Heap :=
  { heap with
    oldGeneration := heap.oldGeneration.flatMap (shrinkObject spare)
    youngGeneration := heap.youngGeneration.flatMap (shrinkObject spare) }

/-- The rest of `collect`, once there has been a full collection. What `Verifier::flush_cache` lets
go of is no longer marked by the collection that follows. -/
def collectFurther (world : Nat → Collection) (caller : Caller) (rounds : Nat)
    (minFreeAfterCollection : Nat) (heap : Heap) : Option (Ending Unit × Heap) :=
  let heap := heap.tryToGrow (signed minFreeAfterCollection) true
  let memoryToFree := signed ((minFreeAfterCollection : Int) - heap.freeMemory)
  if memoryToFree ≤ 0 then
    some (.returned (), heap)
  else
    let heap := heap.shrinkExecutionStacks (world heap.collections).spare
    let heap := heap.forceFullCollect.internalCollect world minFreeAfterCollection
    if heap.freeMemory < minFreeAfterCollection then
      handleOutOfMemory world caller minFreeAfterCollection rounds
        (heap.setCollectionAreaBoundary 0 false)
    else
      some (.returned (), heap)

/-- `collect`. -/
def collect (world : Nat → Collection) (caller : Caller) (rounds : Nat)
    (minFreeAfterCollection : Nat) (heap : Heap) : Option (Ending Unit × Heap) :=
  let minFreeAfterCollection := alignAllocationSize minFreeAfterCollection
  if heap.beforeMain then
    some (.exited, heap)
  else
    let collected := heap.internalCollect world minFreeAfterCollection
    if heap.isFullCollect then
      collectFurther world caller rounds minFreeAfterCollection collected
    else
      let grown := collected.tryToGrow (signed minFreeAfterCollection) false
      if minFreeAfterCollection < grown.freeMemory then
        some (.returned (), grown)
      else
        collectFurther world caller rounds minFreeAfterCollection
          (grown.forceFullCollect.internalCollect world minFreeAfterCollection)

/-! ## Allocation -/

/-- `allocate`, for some rounds of its loop. -/
def allocate (world : Nat → Collection) (caller : Caller) (size : Nat) :
    (rounds : Nat) → Heap → Option (Ending Nat × Heap)
  | 0, _ => none
  | rounds + 1, heap =>
      let inlineTop := heap.inlineAllocationTop
      let newTop := derived inlineTop size
      if newTop < inlineTop then
        some (.outOfMemory, heap)
      else if newTop ≤ heap.inlineAllocationEnd then
        some (.returned inlineTop, { heap with inlineAllocationTop := newTop })
      else
        match heap.collect world caller (rounds + 1) size with
        | none => none
        | some (.returned _, heap) =>
            allocate world caller size rounds heap.clearInlineAllocationArea
        | some (.outOfMemory, heap) => some (.outOfMemory, heap.clearInlineAllocationArea)
        | some (.exited, heap) => some (.exited, heap)

/-- `allocate_raw`. -/
def allocateRaw (world : Nat → Collection) (caller : Caller) (size rounds : Nat) (heap : Heap) :
    Option (Ending Nat × Heap) :=
  let inlineTop := heap.inlineAllocationTop
  let newTop := derived inlineTop size
  if newTop ≤ heap.inlineAllocationEnd ∧ inlineTop ≤ newTop then
    some (.returned inlineTop, { heap with inlineAllocationTop := newTop })
  else
    heap.allocate world caller size rounds

/-- `safe_collect`. -/
def safeCollect (world : Nat → Collection) (caller : Caller) (rounds : Nat)
    (minFreeAfterCollection : Nat) (heap : Heap) : Option (Ending Unit × Heap) :=
  (heap.collect world caller rounds minFreeAfterCollection).map fun result =>
    (result.1, result.2.clearInlineAllocationArea)

end Heap

end PicoJvm.HeapSpace
