import PicoJvm.Memory.HeapSpace

/-!
# The layout of the object heap

The objects fill the heap from its start up to the top of allocation, and the collections and the
growing of the young generation keep it so. What is left behind the top is room for a block.
-/

namespace PicoJvm.HeapSpace

open PicoJvm.Lib.Machine

/-! ## Arithmetic -/

@[simp] theorem bytes_nil : bytes [] = 0 :=
  rfl

@[simp] theorem bytes_cons (obj : Obj) (objects : List Obj) :
    bytes (obj :: objects) = obj.size + bytes objects := by
  simp [bytes]

@[simp] theorem bytes_append (objects objects' : List Obj) :
    bytes (objects ++ objects') = bytes objects + bytes objects' := by
  simp [bytes]

theorem bytes_filter_le (chosen : Obj → Bool) (objects : List Obj) :
    bytes (objects.filter chosen) ≤ bytes objects := by
  induction objects with
  | nil =>
      simp
  | cons obj rest inductionHypothesis =>
      rw [List.filter_cons]
      split
      · simpa using inductionHypothesis
      · rw [bytes_cons]
        omega

theorem unsigned_natCast {value : Nat} (bounded : value < 4294967296) :
    unsigned (value : Int) = value := by
  have same := unsigned_of_nonneg (Int.natCast_nonneg value) (by omega)
  omega

theorem distance_of_le
    {low high : Nat}
    (ordered : low ≤ high)
    (bounded : high < 2147483648) :
    distance low high = (high : Int) - low := by
  apply signed_of_inRange
  constructor <;> omega

theorem derived_natCast
    {pointer offset : Nat}
    (bounded : pointer + offset < 4294967296) :
    derived pointer offset = pointer + offset := by
  rw [derived, ← Int.natCast_add]
  exact unsigned_natCast bounded

/-! ## The layout -/

/-- What the boundaries of the chunk are. It lies in the lower quarter of the addresses, with a
marking stack behind it. -/
structure Chunk (heap : Heap) : Prop where
  compilerArea : heap.compilerAreaStart = heap.heapTop
  heapTop : heap.heapTop = heap.heapStart + heap.heapSize
  capacity : heap.heapSize = heap.heapCapacity
  aligned : heap.heapSize % 128 = 0
  target : heap.youngGenerationTargetSize = (heap.heapSize / 5 + 3) / 4 * 4
  limit : heap.heapTop + minimumMarkingStackSize ≤ 1073741824

/-- The generations lie one behind the other, and the young one ends where blocks are taken. -/
structure Layout (heap : Heap) : Prop extends Chunk heap where
  oldGeneration : heap.oldGenerationEnd = heap.heapStart + bytes heap.oldGeneration
  youngStart : heap.youngGenerationStart = heap.oldGenerationEnd
  youngGeneration :
    heap.inlineAllocationTop = heap.oldGenerationEnd + bytes heap.youngGeneration
  collectionArea :
    heap.collectionAreaStart = heap.heapStart ∨ heap.collectionAreaStart = heap.oldGenerationEnd
  allocationTop : heap.inlineAllocationTop ≤ heap.inlineAllocationEnd
  allocationEnd : heap.inlineAllocationEnd ≤ heap.compilerAreaStart

/-- A block of this size can be taken at the top. -/
def HasRoom (size : Nat) (heap : Heap) : Prop :=
  heap.inlineAllocationTop + size ≤ heap.inlineAllocationEnd

section Layout

variable {heap : Heap}

theorem Chunk.below (chunk : Chunk heap) : heap.compilerAreaStart < 1073741824 := by
  have limit := chunk.limit
  rw [chunk.compilerArea]
  simp only [minimumMarkingStackSize] at limit
  omega

theorem Layout.tiled (layout : Layout heap) :
    heap.inlineAllocationTop = heap.heapStart + bytes heap.objects := by
  rw [layout.youngGeneration, layout.oldGeneration, Heap.objects, bytes_append]
  omega

theorem Chunk.target_lt (chunk : Chunk heap) :
    heap.youngGenerationTargetSize < 268435456 := by
  have below := chunk.below
  have areaEnd := chunk.compilerArea
  have chunkEnd := chunk.heapTop
  rw [chunk.target]
  omega

/-- With the generations next to each other, what is free is behind the top. -/
theorem freeMemory_of_le
    (chunk : Chunk heap)
    (youngStart : heap.youngGenerationStart = heap.oldGenerationEnd)
    (fits : heap.inlineAllocationTop ≤ heap.compilerAreaStart) :
    heap.freeMemory = heap.compilerAreaStart - heap.inlineAllocationTop := by
  have below := chunk.below
  have noGap : distance heap.oldGenerationEnd heap.youngGenerationStart = 0 := by
    rw [youngStart, distance, Int.sub_self]
    exact signed_of_inRange ⟨by omega, by omega⟩
  rw [Heap.freeMemory, noGap, distance_of_le fits (by omega), Int.zero_add, ← Int.natCast_sub fits]
  exact unsigned_natCast (by omega)

theorem Layout.fits (layout : Layout heap) :
    heap.inlineAllocationTop ≤ heap.compilerAreaStart :=
  Nat.le_trans layout.allocationTop layout.allocationEnd

theorem Layout.freeMemory_eq (layout : Layout heap) :
    heap.freeMemory = heap.compilerAreaStart - heap.inlineAllocationTop :=
  freeMemory_of_le layout.toChunk layout.youngStart layout.fits

theorem Layout.forceFullCollect (layout : Layout heap) : Layout heap.forceFullCollect :=
  { layout with collectionArea := Or.inl rfl }

theorem Layout.clearInlineAllocationArea (layout : Layout heap) :
    Layout heap.clearInlineAllocationArea :=
  { layout with }

end Layout

/-! ## Boundaries -/

section Boundaries

variable {heap : Heap} {minFreeAfterCollection : Nat}

/-- The end of the young generation that is set when nothing is used again. -/
theorem noReuse_end
    (chunk : Chunk heap)
    (fits : heap.inlineAllocationTop ≤ heap.compilerAreaStart)
    (minFreeAfterCollection : Nat) :
    ∃ targetSize,
      (heap.setCollectionAreaBoundaryNoReuse minFreeAfterCollection).inlineAllocationEnd =
          heap.inlineAllocationTop + targetSize ∧
        targetSize ≤ heap.compilerAreaStart - heap.inlineAllocationTop ∧
        (minFreeAfterCollection < 2147483648 →
          minFreeAfterCollection ≤ heap.compilerAreaStart - heap.inlineAllocationTop →
            minFreeAfterCollection ≤ targetSize) := by
  have below := chunk.below
  have target := chunk.target_lt
  have available :
      unsigned (distance heap.inlineAllocationTop heap.compilerAreaStart) =
        heap.compilerAreaStart - heap.inlineAllocationTop := by
    rw [distance_of_le fits (by omega), ← Int.natCast_sub fits]
    exact unsigned_natCast (by omega)
  have derivedEnd :
      ∀ targetSize : Nat, targetSize ≤ heap.compilerAreaStart - heap.inlineAllocationTop →
        derived heap.inlineAllocationTop targetSize = heap.inlineAllocationTop + targetSize := by
    intro targetSize bounded
    exact derived_natCast (by omega)
  simp only [Heap.setCollectionAreaBoundaryNoReuse, available]
  split
  · exact ⟨_, derivedEnd _ (Nat.le_refl _), Nat.le_refl _, fun _ enough => enough⟩
  · next bounded =>
      refine ⟨_, derivedEnd _ (by omega), by omega, ?_⟩
      intro small enough
      have sum :
          unsigned ((heap.youngGenerationTargetSize : Int) + minFreeAfterCollection) =
            heap.youngGenerationTargetSize + minFreeAfterCollection := by
        rw [← Int.natCast_add]
        exact unsigned_natCast (by omega)
      rw [sum]
      have rounded :
          unsigned (((heap.youngGenerationTargetSize + minFreeAfterCollection : Nat) : Int) + 3) =
            heap.youngGenerationTargetSize + minFreeAfterCollection + 3 := by
        rw [show ((heap.youngGenerationTargetSize + minFreeAfterCollection : Nat) : Int) + 3 =
          ((heap.youngGenerationTargetSize + minFreeAfterCollection + 3 : Nat) : Int) by omega]
        exact unsigned_natCast (by omega)
      rw [rounded]
      omega

/-- With nothing used again, all objects are old. -/
theorem Layout.noReuse
    (chunk : Chunk heap)
    (tiled : heap.inlineAllocationTop = heap.heapStart + bytes heap.objects)
    (fits : heap.inlineAllocationTop ≤ heap.compilerAreaStart)
    (minFreeAfterCollection : Nat) :
    Layout (heap.setCollectionAreaBoundaryNoReuse minFreeAfterCollection) := by
  obtain ⟨targetSize, isEnd, bounded, _⟩ := noReuse_end chunk fits minFreeAfterCollection
  constructor
  case toChunk => exact { chunk with }
  case oldGeneration => exact tiled
  case youngStart => rfl
  case youngGeneration => simp [Heap.setCollectionAreaBoundaryNoReuse]
  case collectionArea => exact Or.inr rfl
  case allocationTop =>
    rw [isEnd]
    exact Nat.le_add_right _ _
  case allocationEnd =>
    rw [isEnd]
    simp only [Heap.setCollectionAreaBoundaryNoReuse]
    omega

/-- Whatever holds of the boundaries that are chosen, and still when a full collection is to come,
holds after `set_collection_area_boundary`. -/
theorem setCollectionAreaBoundary_induction
    (holds : Heap → Prop)
    (reusePreviousYoungSpace : Bool)
    (forced : ∀ heap, holds heap → holds heap.forceFullCollect)
    (reused : reusePreviousYoungSpace = true → holds heap)
    (notReused :
      reusePreviousYoungSpace = false →
        holds (heap.setCollectionAreaBoundaryNoReuse minFreeAfterCollection)) :
    holds (heap.setCollectionAreaBoundary minFreeAfterCollection reusePreviousYoungSpace) := by
  have decided :
      ∀ chosen : Heap, holds chosen →
        holds (if chosen.lacksYoungSpace minFreeAfterCollection then chosen.forceFullCollect
          else chosen) := by
    intro chosen isChosen
    split
    · exact forced chosen isChosen
    · exact isChosen
  cases reusePreviousYoungSpace with
  | false =>
      simpa only [Heap.setCollectionAreaBoundary, Bool.false_eq_true, if_false]
        using decided _ (notReused rfl)
  | true =>
      simpa only [Heap.setCollectionAreaBoundary, if_true] using decided _ (reused rfl)

end Boundaries

/-! ## One collection -/

section Collections

variable {heap : Heap}

theorem isFullCollect_iff : heap.isFullCollect = true ↔ heap.collectionAreaStart = heap.heapStart :=
  decide_eq_true_iff

theorem bytes_survivors_le (collection : Collection) (heap : Heap) :
    bytes (heap.survivors collection) ≤
      if heap.isFullCollect then bytes heap.objects else bytes heap.youngGeneration := by
  rw [Heap.survivors]
  refine Nat.le_trans (bytes_filter_le _ _) ?_
  split <;> exact Nat.le_refl _

/-- Where the collection area begins, behind what is not collected. -/
theorem Layout.collectionAreaStart_eq (layout : Layout heap) :
    heap.collectionAreaStart = heap.heapStart + bytes heap.outside := by
  rw [Heap.outside]
  split
  · next full =>
      rw [isFullCollect_iff.1 full]
      simp
  · next young =>
      rw [isFullCollect_iff] at young
      rw [layout.collectionArea.resolve_left young, layout.oldGeneration]

theorem Layout.compacted_tiled (layout : Layout heap) (collection : Collection) :
    (heap.compactObjects collection).inlineAllocationTop =
      heap.heapStart + bytes (heap.compactObjects collection).objects := by
  simp only [Heap.compactObjects, Heap.objects, bytes_append, layout.collectionAreaStart_eq]
  omega

/-- A collection lets the top of allocation go down. -/
theorem Layout.compacted_top_le (layout : Layout heap) (collection : Collection) :
    (heap.compactObjects collection).inlineAllocationTop ≤ heap.inlineAllocationTop := by
  have survived := bytes_survivors_le collection heap
  have tiled := layout.tiled
  have areaStart := layout.collectionAreaStart_eq
  simp only [Heap.compactObjects]
  rw [Heap.outside] at areaStart
  rw [Heap.objects, bytes_append] at tiled
  split at survived
  · next full =>
      rw [if_pos full, bytes_nil] at areaStart
      rw [Heap.objects, bytes_append] at survived
      omega
  · next young =>
      rw [if_neg young] at areaStart
      omega

theorem Layout.chunk_compacted (layout : Layout heap) (collection : Collection) :
    Chunk (heap.compactObjects collection) :=
  { layout.toChunk with }

/-- The young generation is used again only after a young collection that has left enough of it. -/
theorem Layout.of_reuse
    (layout : Layout heap)
    (collection : Collection)
    (minFreeAfterCollection : Nat)
    (reuses :
      heap.reusesYoungGeneration minFreeAfterCollection
        (heap.compactObjects collection).inlineAllocationTop = true) :
    Layout (heap.compactObjects collection) ∧
      HasRoom minFreeAfterCollection (heap.compactObjects collection) := by
  have topLe := layout.compacted_top_le collection
  have tiled := layout.compacted_tiled collection
  have fits := layout.fits
  have below := layout.below
  have allocationTop := layout.allocationTop
  obtain ⟨notFull, enough, _, _⟩ := of_decide_eq_true reuses
  have young : ¬ heap.isFullCollect = true := fun full => notFull (isFullCollect_iff.1 full).symm
  have areaStart : heap.collectionAreaStart = heap.oldGenerationEnd :=
    layout.collectionArea.resolve_left (Ne.symm notFull)
  have outside : heap.outside = heap.oldGeneration := if_neg young
  have topIs :
      (heap.compactObjects collection).inlineAllocationTop =
        heap.oldGenerationEnd + bytes (heap.survivors collection) := by
    rw [Heap.compactObjects, areaStart]
  refine ⟨?_, ?_⟩
  · constructor
    case toChunk => exact layout.chunk_compacted collection
    case oldGeneration =>
      simp only [Heap.compactObjects, outside]
      exact layout.oldGeneration
    case youngStart => exact layout.youngStart
    case youngGeneration => exact topIs
    case collectionArea => exact Or.inr areaStart
    case allocationTop => exact Nat.le_trans topLe allocationTop
    case allocationEnd => exact layout.allocationEnd
  · have newSize :
        unsigned (distance heap.oldGenerationEnd
            (heap.compactObjects collection).inlineAllocationTop) =
          bytes (heap.survivors collection) := by
      rw [topIs, distance_of_le (Nat.le_add_right _ _) (by omega)]
      rw [show ((heap.oldGenerationEnd + bytes (heap.survivors collection) : Nat) : Int) -
        heap.oldGenerationEnd = (bytes (heap.survivors collection) : Nat) by omega]
      exact unsigned_natCast (by omega)
    have youngSize :
        distance heap.youngGenerationStart heap.inlineAllocationTop =
          ((heap.inlineAllocationTop - heap.oldGenerationEnd : Nat) : Int) := by
      rw [layout.youngStart, distance_of_le (by omega) (by omega)]
      omega
    have newFree :
        unsigned (((heap.inlineAllocationTop - heap.oldGenerationEnd : Nat) : Int) -
            bytes (heap.survivors collection)) =
          heap.inlineAllocationTop - heap.oldGenerationEnd -
            bytes (heap.survivors collection) := by
      rw [← Int.natCast_sub (by omega)]
      exact unsigned_natCast (by omega)
    rw [newSize, youngSize, newFree] at enough
    rw [HasRoom, topIs]
    exact Nat.le_trans (by omega) allocationTop

/-- After a collection the layout is as it should be, and what is free suffices for a block if it is
as large as the block. -/
def Collected (minFreeAfterCollection : Nat) (heap : Heap) : Prop :=
  Layout heap ∧
    (minFreeAfterCollection < 2147483648 → minFreeAfterCollection ≤ heap.freeMemory →
      HasRoom minFreeAfterCollection heap)

theorem Collected.forceFullCollect
    {minFreeAfterCollection : Nat}
    (collected : Collected minFreeAfterCollection heap) :
    Collected minFreeAfterCollection heap.forceFullCollect :=
  ⟨collected.1.forceFullCollect, collected.2⟩

theorem Collected.noReuse
    (chunk : Chunk heap)
    (tiled : heap.inlineAllocationTop = heap.heapStart + bytes heap.objects)
    (fits : heap.inlineAllocationTop ≤ heap.compilerAreaStart)
    (minFreeAfterCollection : Nat) :
    Collected minFreeAfterCollection
      (heap.setCollectionAreaBoundaryNoReuse minFreeAfterCollection) := by
  have layout := Layout.noReuse chunk tiled fits minFreeAfterCollection
  refine ⟨layout, ?_⟩
  intro small enough
  obtain ⟨targetSize, isEnd, _, suffices'⟩ := noReuse_end chunk fits minFreeAfterCollection
  rw [layout.freeMemory_eq] at enough
  have sufficient := suffices' small enough
  rw [HasRoom, isEnd]
  exact Nat.add_le_add_left sufficient _

theorem Layout.internalCollect
    (layout : Layout heap)
    (world : Nat → Collection)
    (minFreeAfterCollection : Nat) :
    Collected minFreeAfterCollection (heap.internalCollect world minFreeAfterCollection) := by
  rw [Heap.internalCollect]
  apply setCollectionAreaBoundary_induction (Collected minFreeAfterCollection)
  case forced => exact fun _ collected => collected.forceFullCollect
  case reused =>
    intro reuses
    obtain ⟨reusedLayout, room⟩ := layout.of_reuse _ _ reuses
    exact ⟨reusedLayout, fun _ _ => room⟩
  case notReused =>
    intro _
    exact Collected.noReuse (layout.chunk_compacted _) (layout.compacted_tiled _)
      (Nat.le_trans (layout.compacted_top_le _) layout.fits) _

end Collections

/-! ## Growing -/

section Growing

variable {heap : Heap}

theorem alignUp_of_aligned
    {size : Nat}
    (aligned : size % 128 = 0)
    (bounded : size < 1073741824) :
    alignUp size = size := by
  have rounded : unsigned ((size : Int) + ((alignment : Int) - 1)) = size + 127 := by
    rw [show (size : Int) + ((alignment : Int) - 1) = ((size + 127 : Nat) : Int) by
      simp only [alignment]
      omega]
    exact unsigned_natCast (by omega)
  rw [alignUp, rounded, alignDown, alignment]
  omega

/-- The heap has its full size from the start. -/
theorem Chunk.adjustHeapSize_eq (chunk : Chunk heap) :
    heap.adjustHeapSize heap.heapCapacity = some heap := by
  have below := chunk.below
  have areaEnd := chunk.compilerArea
  have chunkEnd := chunk.heapTop
  have target := chunk.target
  have same : alignUp heap.heapCapacity = heap.heapSize := by
    rw [← chunk.capacity]
    exact alignUp_of_aligned chunk.aligned (by omega)
  simp only [Heap.adjustHeapSize, same, youngGenerationTarget, ← target, ← chunkEnd]
  exact if_pos (Nat.le_of_eq chunk.capacity)

theorem Layout.compactAndMoveCompilerArea_eq (layout : Layout heap) :
    heap.compactAndMoveCompilerArea (distance heap.heapTop heap.heapTop) = heap := by
  have below := layout.below
  have still : distance heap.heapTop heap.heapTop = 0 := by
    rw [distance, Int.sub_self]
    exact signed_of_inRange ⟨by omega, by omega⟩
  have same : derived heap.compilerAreaStart 0 = heap.compilerAreaStart := by
    rw [derived, Int.add_zero]
    exact unsigned_natCast (by omega)
  simp only [Heap.compactAndMoveCompilerArea, still, same,
    if_neg (Nat.not_lt.mpr layout.allocationEnd)]

/-- What growing can do: nothing, or let the young generation have what is asked for at least. -/
theorem Layout.tryToGrow_cases
    (layout : Layout heap)
    (requestedFreeMemory : Int)
    (isFullCollect : Bool)
    (inRange : InRange requestedFreeMemory) :
    heap.tryToGrow requestedFreeMemory isFullCollect = heap ∨
      ∃ requested : Nat,
        requestedFreeMemory ≤ requested ∧ requested < 2147483648 ∧
          heap.tryToGrow requestedFreeMemory isFullCollect = heap.expand requested := by
  have target := layout.target_lt
  have signedTarget : signed heap.youngGenerationTargetSize = heap.youngGenerationTargetSize :=
    signed_of_inRange ⟨by omega, by omega⟩
  have bounds :
      ∀ requested : Int,
        requested =
            (if requestedFreeMemory < heap.youngGenerationTargetSize then
              (heap.youngGenerationTargetSize : Int)
            else requestedFreeMemory) →
          0 ≤ requested ∧ requestedFreeMemory ≤ requested ∧ requested < 2147483648 := by
    intro requested isRequested
    have upper := inRange.2
    split at isRequested <;> omega
  simp only [Heap.tryToGrow, signedTarget]
  generalize isRequested :
    (if requestedFreeMemory < heap.youngGenerationTargetSize then
      (heap.youngGenerationTargetSize : Int)
    else requestedFreeMemory) = requested
  obtain ⟨nonneg, atLeast, below⟩ := bounds requested isRequested.symm
  split
  · exact Or.inl rfl
  split
  · exact Or.inl rfl
  split
  · exact Or.inl rfl
  right
  refine ⟨requested.toNat, by omega, by omega, ?_⟩
  simp only [Heap.heapExpansionTarget, layout.adjustHeapSize_eq,
    layout.compactAndMoveCompilerArea_eq, Int.toNat_of_nonneg nonneg]

/-- The end of the young generation once it has been expanded. -/
theorem Layout.expand_end
    (layout : Layout heap)
    {requested : Nat}
    (bounded : requested < 2147483648) :
    (heap.expand requested).inlineAllocationEnd =
      min heap.compilerAreaStart (heap.inlineAllocationTop + requested) := by
  have below := layout.below
  have fits := layout.fits
  simp only [Heap.expand]
  rw [derived_natCast (by omega)]
  split <;> omega

theorem Layout.expand
    (layout : Layout heap)
    {requested : Nat}
    (bounded : requested < 2147483648) :
    Layout (heap.expand requested) := by
  have isEnd := layout.expand_end bounded
  have fits := layout.fits
  constructor
  case toChunk => exact { layout.toChunk with }
  case oldGeneration => exact layout.tiled
  case youngStart => rfl
  case youngGeneration => simp [Heap.expand]
  case collectionArea => exact Or.inr rfl
  case allocationTop =>
    rw [isEnd]
    exact Nat.le_min.mpr ⟨fits, Nat.le_add_right _ _⟩
  case allocationEnd =>
    rw [isEnd]
    exact Nat.min_le_left _ _

/-- Growing keeps the layout, what is free, and the room for a block that has been asked for. -/
theorem Layout.tryToGrow
    (layout : Layout heap)
    (requestedFreeMemory : Int)
    (isFullCollect : Bool)
    (inRange : InRange requestedFreeMemory) :
    let grown := heap.tryToGrow requestedFreeMemory isFullCollect
    Layout grown ∧ grown.freeMemory = heap.freeMemory ∧
      ∀ size : Nat, (size : Int) ≤ requestedFreeMemory → size ≤ heap.freeMemory →
        HasRoom size heap → HasRoom size grown := by
  intro grown
  rcases layout.tryToGrow_cases requestedFreeMemory isFullCollect inRange with
    unchanged | ⟨requested, enough, bounded, expanded⟩
  · rw [show grown = heap from unchanged]
    exact ⟨layout, rfl, fun _ _ _ room => room⟩
  · rw [show grown = heap.expand requested from expanded]
    have expandedLayout := layout.expand bounded
    have sameFree : (heap.expand requested).freeMemory = heap.freeMemory := by
      rw [expandedLayout.freeMemory_eq, layout.freeMemory_eq]
      rfl
    refine ⟨expandedLayout, sameFree, ?_⟩
    intro size asked free _
    rw [layout.freeMemory_eq] at free
    have fits := layout.fits
    rw [HasRoom, layout.expand_end bounded]
    exact Nat.le_min.mpr ⟨by simp only [Heap.expand]; omega, by simp only [Heap.expand]; omega⟩

end Growing

end PicoJvm.HeapSpace
