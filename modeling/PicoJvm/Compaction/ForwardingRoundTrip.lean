import Mathlib.Data.List.Nodup
import PicoJvm.Compaction.ForwardingRun

/-!
# Reading the words of moving objects

What the phases after the computation of the new locations read from the first words: destinations,
near pointers and classes, also while the near pointers themselves are being replaced.
-/

namespace PicoJvm.Compaction

/-- `write_barrier_oops_update_moving_object_near_pointer` over objects in the order it meets them,
with the targets of all slices `shift` further. -/
def updateMovingObjectNearPointers (layout : HeapLayout) (area : Area) (shift : Nat)
    (objs : List Nat) : Nat → Nat :=
  let state := computeNewObjectLocations layout area
  objs.foldl
    (updateMovingObjectNearPointer layout state.compactionStart area.areaEnd
      (state.slices.map (· + shift)))
    state.klass

/-- The words are read back as what was put into them. -/
structure Area.RoundTrips (layout : HeapLayout) (area : Area) : Prop where
  /-- At a live object its own class is found, and the table has room for the slices entered. -/
  scanned :
    ∀ before size after, area.blocks = before ++ .live size :: after →
      let sizes := updateSlicesSize layout
      let state := enterSlices sizes.sliceSize sizes.nofSlices (area.computing layout before)
      decodeFarClassWithRealNear layout state state.p = area.klass (area.klass state.p) ∧
        state.slices.length ≤ sizes.nofSlices
  /-- Encoded words are told from others by the address of the object. -/
  told :
    ∀ obj, (area.start ≤ obj → obj < area.areaEnd → area.Moves obj) →
      ((computeNewObjectLocations layout area).compactionStart ≤ obj ∧ obj < area.areaEnd ↔
        area.Moves obj)
  /-- Objects that stay keep their first words. -/
  fixed :
    ∀ obj, ¬ area.Moves obj →
      (computeNewObjectLocations layout area).klass obj = area.klass obj
  nears :
    ∀ obj, area.Moves obj →
      decodeNear layout ((computeNewObjectLocations layout area).klass obj) = area.klass obj
  farClasses :
    ∀ obj, area.Moves obj →
      decodeFarClassWithEncodedNear layout area (computeNewObjectLocations layout area) obj =
        area.klass (area.klass obj)
  /-- Whether or not the young generation is reused. -/
  destinations :
    ∀ shift obj destination, (obj, destination) ∈ area.moving →
      decodeDestination layout
          ((computeNewObjectLocations layout area).slices.map (· + shift)) obj
          ((computeNewObjectLocations layout area).klass obj) =
        some (destination + shift)
  /-- After the near pointers of the first objects have been replaced, destinations are as before,
  and so are the other near pointers. -/
  updated :
    ∀ shift, shift % 4 = 0 → area.destination + shift ≤ area.start →
      ∀ first rest, area.moving.map Prod.fst = first ++ rest →
        ∀ obj destination, (obj, destination) ∈ area.moving →
          let klass := updateMovingObjectNearPointers layout area shift first
          decodeDestination layout
              ((computeNewObjectLocations layout area).slices.map (· + shift)) obj (klass obj) =
            some (destination + shift) ∧
          (obj ∈ first →
            area.Relocates shift (area.klass obj) (decodeNear layout (klass obj))) ∧
          (obj ∈ rest → decodeNear layout (klass obj) = area.klass obj)

section Reading

variable {layout : HeapLayout} {area : Area}

theorem forwards_aligned
    {blocks : List Block}
    {p top obj destination heapStart : Nat}
    (sizesAligned : ∀ block ∈ blocks, block.size % 4 = 0)
    (inHeap : heapStart ≤ top)
    (topAligned : (top - heapStart) % 4 = 0)
    (found : (obj, destination) ∈ forwards blocks p top) :
    (destination - heapStart) % 4 = 0 := by
  induction blocks generalizing p top with
  | nil =>
      cases found
  | cons block rest inductionHypothesis =>
      have aligned := sizesAligned block List.mem_cons_self
      have restAligned : ∀ block ∈ rest, block.size % 4 = 0 := fun block inRest =>
        sizesAligned block (List.mem_cons_of_mem _ inRest)
      cases block with
      | live size =>
          simp only [Block.size] at aligned
          rcases List.mem_cons.mp found with isHead | inRest
          · cases isHead
            exact topAligned
          · exact inductionHypothesis restAligned (by omega) (by omega) inRest
      | dead size =>
          exact inductionHypothesis restAligned inHeap topAligned found

theorem forwards_nodup
    {blocks : List Block}
    {p top : Nat}
    (sized : ∀ block ∈ blocks, 0 < block.size) :
    ((forwards blocks p top).map Prod.fst).Nodup := by
  induction blocks generalizing p top with
  | nil =>
      exact List.nodup_nil
  | cons block rest inductionHypothesis =>
      have positive := sized block List.mem_cons_self
      have restSized : ∀ block ∈ rest, 0 < block.size := fun block inRest =>
        sized block (List.mem_cons_of_mem _ inRest)
      cases block with
      | live size =>
          refine List.nodup_cons.mpr ⟨?_, inductionHypothesis restSized⟩
          intro again
          obtain ⟨⟨obj, destination⟩, found, isObj⟩ := List.mem_map.mp again
          have bounds := forwards_bounds restSized found
          simp only [Block.size] at positive isObj
          omega
      | dead size =>
          exact inductionHypothesis restSized

/-- The whole pass. -/
theorem Area.WellFormed.computed
    (placed : layout.WellPlaced)
    (wellFormed : area.WellFormed layout) :
    (computeNewObjectLocations layout area).Reached layout area area.blocks :=
  wellFormed.reached placed area.blocks [] (List.append_nil _).symm

theorem Area.WellFormed.computed_p
    (placed : layout.WellPlaced)
    (wellFormed : area.WellFormed layout) :
    (computeNewObjectLocations layout area).p = area.areaEnd :=
  (wellFormed.computed placed).place

/-- An object that moves goes to a word of the heap. -/
theorem Area.WellFormed.destination_isNear
    (wellFormed : area.WellFormed layout)
    {shift obj destination : Nat}
    (shiftAligned : shift % 4 = 0)
    (shiftFits : area.destination + shift ≤ area.start)
    (moves : (obj, destination) ∈ area.moving) :
    layout.heapStart ≤ destination + shift ∧ destination + shift < layout.markAreaEnd ∧
      layout.IsNear (destination + shift) := by
  have bounds := forwards_bounds (fun block found => (wellFormed.sizesAligned block found).2) moves
  have aligned := forwards_aligned (fun block found => (wellFormed.sizesAligned block found).1)
    wellFormed.destinationInHeap wellFormed.destinationAligned moves
  have isEnd : area.areaEnd = area.start + totalSize area.blocks := rfl
  have endInHeap := wellFormed.endInHeap
  have inHeap := wellFormed.destinationInHeap
  have below : destination + shift < layout.markAreaEnd := by omega
  exact ⟨by omega, below, .heap (by omega) below (by omega)⟩

/-- What the first words hold while near pointers are being replaced: the objects of `first` have
the near pointers they will have, the others those they had. -/
structure Area.Updating (layout : HeapLayout) (area : Area) (shift : Nat) (first : List Nat)
    (klass : Nat → Nat) : Prop where
  words :
    ∀ obj destination, (obj, destination) ∈ area.moving →
      ∃ near,
        Holds layout ((computeNewObjectLocations layout area).slices.map (· + shift)) (klass obj)
          obj (destination + shift) near ∧
        layout.IsNear near ∧
        (obj ∈ first → area.Relocates shift (area.klass obj) near) ∧
        (obj ∉ first → near = area.klass obj)

theorem Area.WellFormed.updating_nil
    (placed : layout.WellPlaced)
    (wellFormed : area.WellFormed layout)
    (shift : Nat) :
    area.Updating layout shift [] (computeNewObjectLocations layout area).klass where
  words := by
    intro obj destination moves
    have holds := (wellFormed.computed placed).words obj destination moves
    refine ⟨area.klass obj, holds.shift shift, wellFormed.nearValid obj ⟨destination, moves⟩,
      ?_, fun _ => rfl⟩
    intro found
    cases found

/-- Replacing one more near pointer. -/
theorem Area.Updating.step
    (placed : layout.WellPlaced)
    (wellFormed : area.WellFormed layout)
    {shift obj : Nat}
    {first : List Nat}
    {klass : Nat → Nat}
    (shiftAligned : shift % 4 = 0)
    (shiftFits : area.destination + shift ≤ area.start)
    (objMoves : area.Moves obj)
    (isNew : obj ∉ first)
    (updating : area.Updating layout shift first klass) :
    area.Updating layout shift (first ++ [obj])
      (updateMovingObjectNearPointer layout
        (computeNewObjectLocations layout area).compactionStart area.areaEnd
        ((computeNewObjectLocations layout area).slices.map (· + shift)) klass obj) := by
  obtain ⟨objDestination, objFound⟩ := objMoves
  obtain ⟨near, holds, isNear, _, unchanged⟩ := updating.words obj objDestination objFound
  have isOld := unchanged isNew
  have nearRead : decodeNear layout (klass obj) = area.klass obj := by
    rw [holds.decodeNear placed isNear, isOld]
  have alive := wellFormed.nearMarked obj ⟨objDestination, objFound⟩
  have told := (wellFormed.computed placed).encoded_iff wellFormed (List.append_nil _).symm alive
  rw [wellFormed.computed_p placed] at told
  -- the words of all other objects stay
  have others : ∀ (word : Nat) {other destination : Nat}, other ≠ obj →
      (other, destination) ∈ area.moving →
      ∃ near,
        Holds layout ((computeNewObjectLocations layout area).slices.map (· + shift))
          (Function.update klass obj word other) other (destination + shift) near ∧
        layout.IsNear near ∧
        (other ∈ first ++ [obj] → area.Relocates shift (area.klass other) near) ∧
        (other ∉ first ++ [obj] → near = area.klass other) := by
    intro word other destination different moves
    obtain ⟨near, holds, isNear, replaced, kept⟩ := updating.words other destination moves
    rw [Function.update_of_ne different]
    refine ⟨near, holds, isNear, ?_, ?_⟩
    · intro found
      apply replaced
      simpa [different] using found
    · intro notFound
      apply kept
      simpa [different] using notFound
  unfold updateMovingObjectNearPointer
  rw [nearRead]
  dsimp only
  by_cases nearMoves : area.Moves (area.klass obj)
  · obtain ⟨nearDestination, nearFound⟩ := nearMoves
    obtain ⟨nearNear, nearHolds, nearIsNear, _, _⟩ :=
      updating.words (area.klass obj) nearDestination nearFound
    have inHeap := wellFormed.destination_isNear shiftAligned shiftFits nearFound
    rw [if_pos (told.mpr ⟨nearDestination, nearFound⟩),
      nearHolds.decodeDestination placed nearIsNear]
    dsimp only
    refine ⟨fun other destination moves => ?_⟩
    by_cases isObj : other = obj
    · subst isObj
      rw [Function.update_self]
      obtain ⟨_, otherHolds, otherIsNear, _, _⟩ := updating.words other destination moves
      refine ⟨nearDestination + shift,
        otherHolds.updateNear placed otherIsNear inHeap.1 inHeap.2.1, inHeap.2.2, ?_, ?_⟩
      · intro _
        exact .moving nearFound
      · intro notFound
        exact absurd (List.mem_append_right _ (List.mem_singleton_self _)) notFound
    · exact others _ isObj moves
  · rw [if_neg (fun encoded => nearMoves (told.mp encoded))]
    refine ⟨fun other destination moves => ?_⟩
    by_cases isObj : other = obj
    · subst isObj
      obtain ⟨otherNear, otherHolds, otherIsNear, _, otherOld⟩ :=
        updating.words other destination moves
      refine ⟨otherNear, otherHolds, otherIsNear, ?_, fun _ => otherOld isNew⟩
      intro _
      rw [otherOld isNew]
      exact .fixed nearMoves
    · have kept := others (klass obj) isObj moves
      rwa [Function.update_eq_self] at kept

/-- Replacing the near pointers of the first objects. -/
theorem Area.WellFormed.updating
    (placed : layout.WellPlaced)
    (wellFormed : area.WellFormed layout)
    {shift : Nat}
    (shiftAligned : shift % 4 = 0)
    (shiftFits : area.destination + shift ≤ area.start)
    (first rest : List Nat)
    (isWhole : area.moving.map Prod.fst = first ++ rest) :
    area.Updating layout shift first (updateMovingObjectNearPointers layout area shift first) := by
  induction first using List.reverseRecOn generalizing rest with
  | nil =>
      exact wellFormed.updating_nil placed shift
  | append_singleton before obj inductionHypothesis =>
      have isWholeBefore : area.moving.map Prod.fst = before ++ obj :: rest := by
        rw [isWhole, List.append_assoc, List.singleton_append]
      have isStep : updateMovingObjectNearPointers layout area shift (before ++ [obj]) =
          updateMovingObjectNearPointer layout
            (computeNewObjectLocations layout area).compactionStart area.areaEnd
            ((computeNewObjectLocations layout area).slices.map (· + shift))
            (updateMovingObjectNearPointers layout area shift before) obj := by
        simp [updateMovingObjectNearPointers]
      have once : (before ++ obj :: rest).Nodup := by
        rw [← isWholeBefore]
        exact forwards_nodup fun block found => (wellFormed.sizesAligned block found).2
      have isNew : obj ∉ before := by
        intro earlier
        exact (List.disjoint_of_nodup_append once) earlier List.mem_cons_self
      have moves : area.Moves obj := by
        have found : obj ∈ area.moving.map Prod.fst := by
          rw [isWholeBefore]
          exact List.mem_append_right _ List.mem_cons_self
        obtain ⟨⟨_, destination⟩, inMoving, isObj⟩ := List.mem_map.mp found
        exact ⟨destination, isObj ▸ inMoving⟩
      rw [isStep]
      exact (inductionHypothesis _ isWholeBefore).step placed wellFormed shiftAligned shiftFits moves
        isNew

/-- At a live object its class is found, and the table has room for the slices entered. -/
theorem Area.WellFormed.scanned
    (placed : layout.WellPlaced)
    (wellFormed : area.WellFormed layout)
    {before after : List Block}
    {size : Nat}
    (isWhole : area.blocks = before ++ .live size :: after) :
    let sizes := updateSlicesSize layout
    let state := enterSlices sizes.sliceSize sizes.nofSlices (area.computing layout before)
    decodeFarClassWithRealNear layout state state.p = area.klass (area.klass state.p) ∧
      state.slices.length ≤ sizes.nofSlices := by
  intro sizes state
  have reached := (wellFormed.reached placed before _ isWhole).enter sizes.nofSlices
  have sized := wellFormed.sizesAligned (.live size) (by simp [isWhole])
  have isEnd := Area.areaEnd_eq isWhole
  have endInHeap := wellFormed.endInHeap
  have markAreaInHeap := placed.markAreaInHeap
  have isPlace : state.p = area.start + totalSize before := reached.place
  rw [totalSize_cons] at isEnd
  have moves : area.Moves state.p := by
    refine ⟨area.destination + liveSize before, ?_⟩
    rw [Area.moving, isWhole, forwards_append, isPlace]
    exact List.mem_append_right _ List.mem_cons_self
  have unwritten : state.klass state.p = area.klass state.p := by
    apply reached.others
    intro destination found
    have bounds := forwards_bounds (wellFormed.sized isWhole) found
    omega
  constructor
  · rw [decodeFarClassWithRealNear, unwritten]
    exact reached.klassOf_eq placed wellFormed isWhole (wellFormed.nearMarked _ moves)
  · have boundary : state.nextSlice =
        layout.heapStart + state.slices.length * (4 * sizes.sliceSize) := reached.inSlice.boundary
    have covered : layout.heapSize ≤ sizes.nofSlices * (4 * sizes.sliceSize) := heapSize_le layout
    rcases reached.inSlice.current with none | ⟨_, above, _, near⟩
    · rw [show state.slices = [] from none]
      exact Nat.zero_le _
    · have below : state.nextSlice ≤ state.p + 4 * sizes.sliceSize := by
        have notBelow : state.thisSliceDestination ≤ state.compactionTop := above
        have isNear : state.compactionTop + state.nextSlice ≤
          state.p + state.thisSliceDestination + 4 * sizes.sliceSize := near
        omega
      have fewer : state.slices.length * (4 * sizes.sliceSize) <
          (sizes.nofSlices + 1) * (4 * sizes.sliceSize) := by
        rw [Nat.succ_mul sizes.nofSlices]
        simp only [Block.size] at isEnd sized
        omega
      exact Nat.le_of_lt_succ (Nat.lt_of_mul_lt_mul_right fewer)

end Reading

/-- Destinations, near pointers and classes are read back exactly from the first words. -/
theorem forwarding_round_trips
    (layout : HeapLayout)
    (area : Area)
    (placed : layout.WellPlaced)
    (wellFormed : area.WellFormed layout) :
    area.RoundTrips layout := by
  have computed := wellFormed.computed placed
  have isEnd := wellFormed.computed_p placed
  have isWhole := (List.append_nil area.blocks).symm
  have told : ∀ obj, (area.start ≤ obj → obj < area.areaEnd → area.Moves obj) →
      ((computeNewObjectLocations layout area).compactionStart ≤ obj ∧ obj < area.areaEnd ↔
        area.Moves obj) := by
    intro obj alive
    have encoded := computed.encoded_iff wellFormed isWhole alive
    rwa [isEnd] at encoded
  have read : ∀ obj, (area.start ≤ obj → obj < area.areaEnd → area.Moves obj) →
      (computeNewObjectLocations layout area).klassOf layout area.areaEnd obj =
        area.klass obj := by
    intro obj alive
    have isRead := computed.klassOf_eq placed wellFormed isWhole alive
    rwa [isEnd] at isRead
  refine
    { scanned := ?_
      told := told
      fixed := ?_
      nears := ?_
      farClasses := ?_
      destinations := ?_
      updated := ?_ }
  · intro before size after isWholeBefore
    exact wellFormed.scanned placed isWholeBefore
  · intro obj stays
    apply computed.others
    intro destination found
    exact stays ⟨destination, found⟩
  · intro obj moves
    obtain ⟨destination, found⟩ := moves
    exact (computed.words obj destination found).decodeNear placed
      (wellFormed.nearValid obj ⟨destination, found⟩)
  · intro obj moves
    rw [decodeFarClassWithEncodedNear, read obj (fun _ _ => moves),
      read (area.klass obj) (wellFormed.nearMarked obj moves)]
  · intro shift obj destination moves
    exact ((computed.words obj destination moves).shift shift).decodeDestination placed
      (wellFormed.nearValid obj ⟨destination, moves⟩)
  · intro shift shiftAligned shiftFits first rest isSplit obj destination moves
    have updating := wellFormed.updating placed shiftAligned shiftFits first rest isSplit
    obtain ⟨near, holds, isNear, replaced, kept⟩ := updating.words obj destination moves
    have once : (first ++ rest).Nodup := by
      rw [← isSplit]
      exact forwards_nodup fun block found => (wellFormed.sizesAligned block found).2
    refine ⟨holds.decodeDestination placed isNear, ?_, ?_⟩
    · intro found
      rw [holds.decodeNear placed isNear]
      exact replaced found
    · intro found
      rw [holds.decodeNear placed isNear]
      apply kept
      intro earlier
      exact (List.disjoint_of_nodup_append once) earlier found

/-! ## Slices of one word -/

/-- A ROM image so large that one word is left for a slice of the heap. -/
def wordSlices : HeapLayout where
  heapStart := 0x1000
  heapSize := 64
  markAreaEnd := 0x1040
  romTextStart := 0x100000
  romTextSize := 0x20000000
  romDataStart := 0x30000000
  romDataSize := 16

/-- Four objects: their near objects move, lie in the ROM text, in the ROM data, or stay. -/
def fourObjects : Area where
  start := 0x1010
  destination := 0x1010
  blocks := [.dead 8, .live 8, .dead 4, .live 4, .live 8, .live 4]
  klass obj :=
    if obj = 0x1018 then 0x1024
    else if obj = 0x1024 then 0x100008
    else if obj = 0x1028 then 0x30000004
    else if obj = 0x1030 then 0x1004
    else 0

theorem fourObjects_moving :
    fourObjects.moving =
      [(0x1018, 0x1010), (0x1024, 0x1018), (0x1028, 0x101c), (0x1030, 0x1024)] := rfl

theorem wordSlices_placed : wordSlices.WellPlaced := by
  constructor <;> decide

theorem fourObjects_wellFormed : fourObjects.WellFormed wordSlices where
  startInHeap := by decide
  endInHeap := by decide
  destinationInHeap := by decide
  destinationAligned := by decide
  destinationBefore := by decide
  sizesAligned := by decide
  nearValid := by
    intro obj moves
    obtain ⟨destination, found⟩ := moves
    rw [fourObjects_moving] at found
    simp only [List.mem_cons, Prod.mk.injEq, List.not_mem_nil, or_false] at found
    rcases found with ⟨rfl, _⟩ | ⟨rfl, _⟩ | ⟨rfl, _⟩ | ⟨rfl, _⟩
    · exact .heap (by decide) (by decide) (by decide)
    · exact .text (by decide) (by decide) (by decide)
    · exact .data (by decide) (by decide) (by decide)
    · exact .heap (by decide) (by decide) (by decide)
  nearMarked := by
    intro obj moves above below
    obtain ⟨destination, found⟩ := moves
    rw [fourObjects_moving] at found
    simp only [List.mem_cons, Prod.mk.injEq, List.not_mem_nil, or_false] at found
    rcases found with ⟨rfl, _⟩ | ⟨rfl, _⟩ | ⟨rfl, _⟩ | ⟨rfl, _⟩
    · refine ⟨0x1018, ?_⟩
      rw [fourObjects_moving]
      decide
    · exact absurd below (by decide)
    · exact absurd below (by decide)
    · exact absurd above (by decide)

theorem fourObjects_round_trips : fourObjects.RoundTrips wordSlices :=
  forwarding_round_trips wordSlices fourObjects wordSlices_placed fourObjects_wellFormed

end PicoJvm.Compaction
