import Mathlib.Data.List.Induction
import Mathlib.Logic.Function.Basic
import PicoJvm.Compaction.ForwardingWord

/-!
# Computing the new locations

The pass of the collector over the objects of the collected area. It writes the first word of every
live object and a table with the place each slice of the heap goes to.
-/

namespace PicoJvm.Compaction

/-! ## The pass -/

/-- What the pass comes to next: a live object or a range of dead ones, of some bytes. -/
inductive Block
  | live (size : Nat)
  | dead (size : Nat)
  deriving DecidableEq, Repr

def Block.size : Block → Nat
  | .live size | .dead size => size

/-- The variables of `compute_new_object_locations`, and the first words of all objects. -/
structure Computing where
  p : Nat
  nextSlice : Nat
  thisSliceDestination : Nat
  slices : List Nat
  compactionTop : Nat
  compactionStart : Nat
  compactionStarted : Bool
  klass : Nat → Nat

/-- The inner loop `while (p >= next_slice)`. The table has room for `nof_slices` rounds. -/
def enterSlices (sliceSize : Nat) : Nat → Computing → Computing
  | 0, state => state
  | fuel + 1, state =>
      if state.nextSlice ≤ state.p then
        enterSlices sliceSize fuel
          { state with
            nextSlice := state.nextSlice + 4 * sliceSize
            thisSliceDestination := state.compactionTop
            slices := state.slices ++ [state.compactionTop] }
      else
        state

/-- What is done for a live object. -/
def forwardObject (layout : HeapLayout) (size : Nat) (state : Computing) : Computing :=
  let sliceOffset := (state.compactionTop - state.thisSliceDestination) / 4
  { state with
    compactionStart := if state.compactionStarted then state.compactionStart else state.p
    compactionStarted := true
    klass := Function.update state.klass state.p
      (encodeWord layout sliceOffset (state.klass state.p))
    compactionTop := state.compactionTop + size
    p := state.p + size }

/-- One round of the loop. -/
def computeStep (layout : HeapLayout) (state : Computing) (block : Block) : Computing :=
  let sizes := updateSlicesSize layout
  let state := enterSlices sizes.sliceSize sizes.nofSlices state
  match block with
  | .live size => forwardObject layout size state
  | .dead size => { state with p := state.p + size }

/-- The collected area behind the objects that stay: where it starts, where its first live object
goes, what is in it, and the first words of all objects. -/
structure Area where
  start : Nat
  destination : Nat
  blocks : List Block
  klass : Nat → Nat

/-- `_collection_area_end`. -/
def Area.areaEnd (area : Area) : Nat :=
  area.start + (area.blocks.map Block.size).sum

/-- The variables before the loop, with the sentinel in `_compaction_start`. -/
def Area.initial (layout : HeapLayout) (area : Area) : Computing where
  p := area.start
  nextSlice := layout.heapStart
  thisSliceDestination := 0
  slices := []
  compactionTop := area.destination
  compactionStart := area.areaEnd
  compactionStarted := false
  klass := area.klass

/-- The loop over the first part of the blocks. -/
def Area.computing (layout : HeapLayout) (area : Area) (blocks : List Block) : Computing :=
  blocks.foldl (computeStep layout) (area.initial layout)

/-- `compute_new_object_locations`. -/
def computeNewObjectLocations (layout : HeapLayout) (area : Area) : Computing :=
  area.computing layout area.blocks

/-- The test that decides whether the first word of an object is read through `decode_near`, with
the bound on the scanned part that the reader has. -/
def Computing.klassOf (layout : HeapLayout) (state : Computing) (upper obj : Nat) : Nat :=
  if state.compactionStart ≤ obj ∧ obj < upper then
    decodeNear layout (state.klass obj)
  else
    state.klass obj

/-- `decode_far_class_with_real_near`: the near of `obj` is not encoded yet. -/
def decodeFarClassWithRealNear (layout : HeapLayout) (state : Computing) (obj : Nat) : Nat :=
  state.klassOf layout obj (state.klass obj)

/-- `decode_far_class_with_encoded_near`. -/
def decodeFarClassWithEncodedNear (layout : HeapLayout) (area : Area) (state : Computing)
    (obj : Nat) : Nat :=
  state.klassOf layout area.areaEnd (state.klassOf layout area.areaEnd obj)

/-- `write_barrier_oops_update_moving_object_near_pointer` for one object. -/
def updateMovingObjectNearPointer (layout : HeapLayout) (compactionStart collectionAreaEnd : Nat)
    (slices : List Nat) (klass : Nat → Nat) (obj : Nat) : Nat → Nat :=
  let near := decodeNear layout (klass obj)
  if compactionStart ≤ near ∧ near < collectionAreaEnd then
    match decodeDestination layout slices near (klass near) with
    | some newNear => Function.update klass obj (updateNear layout (klass obj) newNear)
    | none => klass
  else
    klass

/-! ## What the pass is for -/

/-- The live objects with the places they go to: each goes right behind the one before it. -/
def forwards : List Block → Nat → Nat → List (Nat × Nat)
  | [], _, _ => []
  | .live size :: rest, p, top => (p, top) :: forwards rest (p + size) (top + size)
  | .dead size :: rest, p, top => forwards rest (p + size) top

/-- The moving objects of an area and their destinations. -/
def Area.moving (area : Area) : List (Nat × Nat) :=
  forwards area.blocks area.start area.destination

/-- An object of the area that moves. -/
def Area.Moves (area : Area) (obj : Nat) : Prop :=
  ∃ destination, (obj, destination) ∈ area.moving

/-- Where an object is after the collection, when everything that moves goes `shift` further. -/
inductive Area.Relocates (area : Area) (shift obj : Nat) : Nat → Prop
  | moving {destination : Nat} :
      (obj, destination) ∈ area.moving → area.Relocates shift obj (destination + shift)
  | fixed : ¬ area.Moves obj → area.Relocates shift obj obj

/-- What marking leaves: an area of whole words within the heap, whose live objects have near
objects, and a near object in the area is itself alive. -/
structure Area.WellFormed (layout : HeapLayout) (area : Area) : Prop where
  startInHeap : layout.heapStart ≤ area.start
  endInHeap : area.areaEnd ≤ layout.markAreaEnd
  destinationInHeap : layout.heapStart ≤ area.destination
  destinationAligned : (area.destination - layout.heapStart) % 4 = 0
  destinationBefore : area.destination ≤ area.start
  sizesAligned : ∀ block ∈ area.blocks, block.size % 4 = 0 ∧ 0 < block.size
  nearValid : ∀ obj, area.Moves obj → layout.IsNear (area.klass obj)
  nearMarked :
    ∀ obj, area.Moves obj → area.start ≤ area.klass obj → area.klass obj < area.areaEnd →
      area.Moves (area.klass obj)

/-- A first word that holds a near pointer and, with the table of the slices, a destination. -/
def Holds (layout : HeapLayout) (slices : List Nat) (klass obj destination near : Nat) : Prop :=
  ∃ sliceStart sliceOffset,
    slices[(obj - layout.heapStart) / 4 / (updateSlicesSize layout).sliceSize]? = some sliceStart ∧
      sliceOffset < (updateSlicesSize layout).sliceSize ∧
      destination = sliceStart + 4 * sliceOffset ∧
      klass = encodeWord layout sliceOffset near

section Words

variable {layout : HeapLayout} {slices : List Nat} {klass obj destination near : Nat}

theorem Holds.decodeNear
    (placed : layout.WellPlaced)
    (isNear : layout.IsNear near)
    (holds : Holds layout slices klass obj destination near) :
    decodeNear layout klass = near := by
  obtain ⟨sliceStart, sliceOffset, _, inSlice, _, rfl⟩ := holds
  exact decodeNear_encodeWord placed isNear inSlice

theorem Holds.decodeDestination
    (placed : layout.WellPlaced)
    (isNear : layout.IsNear near)
    (holds : Holds layout slices klass obj destination near) :
    decodeDestination layout slices obj klass = some destination := by
  obtain ⟨sliceStart, sliceOffset, found, inSlice, goes, rfl⟩ := holds
  have bits : (updateSlicesSize layout).sliceSize =
      2 ^ (updateSlicesSize layout).sliceOffsetBits := Nat.one_shiftLeft _
  unfold Compaction.decodeDestination
  dsimp only
  rw [Nat.shiftRight_eq_div_pow, ← bits, found, decodeSliceOffset_encodeWord placed isNear inSlice,
    goes]
  rfl

/-- Slices entered later do not matter. -/
theorem Holds.append
    (holds : Holds layout slices klass obj destination near)
    (more : List Nat) :
    Holds layout (slices ++ more) klass obj destination near := by
  obtain ⟨sliceStart, sliceOffset, found, rest⟩ := holds
  refine ⟨sliceStart, sliceOffset, ?_, rest⟩
  have inTable := (List.getElem?_eq_some_iff.mp found).1
  rw [List.getElem?_append_left inTable, found]

/-- Moving the targets of all slices moves the destination. -/
theorem Holds.shift
    (holds : Holds layout slices klass obj destination near)
    (shift : Nat) :
    Holds layout (slices.map (· + shift)) klass obj (destination + shift) near := by
  obtain ⟨sliceStart, sliceOffset, found, inSlice, goes, encoded⟩ := holds
  refine ⟨sliceStart + shift, sliceOffset, ?_, inSlice, ?_, encoded⟩
  · rw [List.getElem?_map, found, Option.map_some]
  · omega

/-- A new near pointer leaves the destination. -/
theorem Holds.updateNear
    (placed : layout.WellPlaced)
    {newNear : Nat}
    (isNear : layout.IsNear near)
    (above : layout.heapStart ≤ newNear)
    (below : newNear < layout.markAreaEnd)
    (holds : Holds layout slices klass obj destination near) :
    Holds layout slices (updateNear layout klass newNear) obj destination newNear := by
  obtain ⟨sliceStart, sliceOffset, found, inSlice, goes, rfl⟩ := holds
  refine ⟨sliceStart, sliceOffset, found, inSlice, goes, ?_⟩
  exact updateNear_encodeWord placed isNear above below inSlice

end Words

/-! ## The places and the destinations -/

/-- The bytes of all blocks. -/
def totalSize (blocks : List Block) : Nat :=
  (blocks.map Block.size).sum

/-- The bytes of the live objects. -/
def liveSize : List Block → Nat
  | [] => 0
  | .live size :: rest => size + liveSize rest
  | .dead _ :: rest => liveSize rest

@[simp]
theorem totalSize_nil : totalSize [] = 0 := rfl

@[simp]
theorem totalSize_cons (block : Block) (rest : List Block) :
    totalSize (block :: rest) = block.size + totalSize rest := by
  simp [totalSize]

theorem totalSize_append (first second : List Block) :
    totalSize (first ++ second) = totalSize first + totalSize second := by
  simp [totalSize]

theorem liveSize_append (first second : List Block) :
    liveSize (first ++ second) = liveSize first + liveSize second := by
  induction first with
  | nil =>
      simp [liveSize]
  | cons block rest inductionHypothesis =>
      cases block <;> simp [liveSize, inductionHypothesis, Nat.add_assoc]

theorem forwards_append (first second : List Block) (p top : Nat) :
    forwards (first ++ second) p top =
      forwards first p top ++ forwards second (p + totalSize first) (top + liveSize first) := by
  induction first generalizing p top with
  | nil =>
      simp [forwards, liveSize]
  | cons block rest inductionHypothesis =>
      cases block with
      | live size =>
          simp [forwards, liveSize, Block.size, inductionHypothesis, Nat.add_assoc]
      | dead size =>
          simp [forwards, liveSize, Block.size, inductionHypothesis, Nat.add_assoc]

/-- The objects lie where they were scanned, and none goes up relative to the others. -/
theorem forwards_bounds
    {blocks : List Block}
    {p top obj destination : Nat}
    (sized : ∀ block ∈ blocks, 0 < block.size)
    (found : (obj, destination) ∈ forwards blocks p top) :
    p ≤ obj ∧ obj < p + totalSize blocks ∧ top ≤ destination ∧ destination + p ≤ obj + top := by
  induction blocks generalizing p top with
  | nil =>
      cases found
  | cons block rest inductionHypothesis =>
      have positive := sized block List.mem_cons_self
      have restSized : ∀ block ∈ rest, 0 < block.size := fun block inRest =>
        sized block (List.mem_cons_of_mem _ inRest)
      rw [totalSize_cons]
      cases block with
      | live size =>
          rcases List.mem_cons.mp found with isHead | inRest
          · cases isHead
            omega
          · have := inductionHypothesis restSized inRest
            simp only [Block.size] at positive ⊢
            omega
      | dead size =>
          have := inductionHypothesis restSized found
          simp only [Block.size] at positive ⊢
          omega

/-! ## Entering slices -/

/-- The current slice: its start is in the table, and what lies below the scanned object went at
most as far from where the slice goes as the object is from where the slice starts. -/
structure Computing.InSlice (layout : HeapLayout) (state : Computing) : Prop where
  boundary :
    state.nextSlice =
      layout.heapStart + state.slices.length * (4 * (updateSlicesSize layout).sliceSize)
  current :
    state.slices = [] ∨
      (∃ earlier, state.slices = earlier ++ [state.thisSliceDestination]) ∧
        state.thisSliceDestination ≤ state.compactionTop ∧
        (state.compactionTop - state.thisSliceDestination) % 4 = 0 ∧
        state.compactionTop + state.nextSlice ≤
          state.p + state.thisSliceDestination + 4 * (updateSlicesSize layout).sliceSize

theorem sliceSize_pos (layout : HeapLayout) : 0 < (updateSlicesSize layout).sliceSize := by
  change 0 < 1 <<< _
  rw [Nat.one_shiftLeft]
  exact Nat.two_pow_pos _

/-- The loop only adds to the table, and it ends in the slice of the scanned object. -/
theorem enterSlices_spec
    {layout : HeapLayout}
    (fuel : Nat)
    (state : Computing)
    (inSlice : state.InSlice layout) :
    ∃ more nextSlice thisSliceDestination,
      enterSlices (updateSlicesSize layout).sliceSize fuel state =
          { state with
            nextSlice := nextSlice
            thisSliceDestination := thisSliceDestination
            slices := state.slices ++ more } ∧
        (enterSlices (updateSlicesSize layout).sliceSize fuel state).InSlice layout ∧
        (state.p < state.nextSlice + fuel * (4 * (updateSlicesSize layout).sliceSize) →
          state.p < nextSlice) := by
  induction fuel generalizing state with
  | zero =>
      refine ⟨[], state.nextSlice, state.thisSliceDestination, ?_, inSlice, ?_⟩
      · rw [List.append_nil]
        rfl
      · intro below
        omega
  | succ fuel inductionHypothesis =>
      by_cases passed : state.nextSlice ≤ state.p
      · have entered : Computing.InSlice layout
            { state with
              nextSlice := state.nextSlice + 4 * (updateSlicesSize layout).sliceSize
              thisSliceDestination := state.compactionTop
              slices := state.slices ++ [state.compactionTop] } := by
          refine ⟨?_, Or.inr ⟨⟨state.slices, rfl⟩, Nat.le_refl _, ?_, ?_⟩⟩
          · dsimp only
            rw [List.length_append, List.length_singleton, inSlice.boundary,
              Nat.succ_mul state.slices.length, Nat.add_assoc]
          · dsimp only
            rw [Nat.sub_self, Nat.zero_mod]
          · dsimp only
            omega
        obtain ⟨more, nextSlice, thisSliceDestination, result, after, beyond⟩ :=
          inductionHypothesis _ entered
        rw [enterSlices, if_pos passed]
        refine ⟨state.compactionTop :: more, nextSlice, thisSliceDestination, ?_, after, ?_⟩
        · rw [result, List.append_assoc]
          rfl
        · intro below
          apply beyond
          rw [Nat.succ_mul fuel] at below
          dsimp only
          omega
      · rw [enterSlices, if_neg passed]
        refine ⟨[], state.nextSlice, state.thisSliceDestination, ?_, inSlice, ?_⟩
        · rw [List.append_nil]
        · intro _
          omega

/-- The slice of an object is the last one that was entered. -/
theorem Computing.InSlice.current_slice
    {layout : HeapLayout}
    {state : Computing}
    (inSlice : state.InSlice layout)
    (inHeap : layout.heapStart ≤ state.p)
    (entered : state.p < state.nextSlice) :
    (state.p - layout.heapStart) / 4 / (updateSlicesSize layout).sliceSize + 1 =
      state.slices.length := by
  have boundary := inSlice.boundary
  rcases inSlice.current with none | ⟨⟨earlier, isTable⟩, below, _, near⟩
  · rw [none, List.length_nil, Nat.zero_mul] at boundary
    omega
  · have isLength : state.slices.length = earlier.length + 1 := by
      rw [isTable, List.length_append, List.length_singleton]
    rw [isLength, Nat.succ_mul earlier.length] at boundary
    rw [isLength, Nat.div_div_eq_div_mul, Nat.add_left_inj]
    apply Nat.div_eq_of_lt_le
    · omega
    · rw [Nat.succ_mul earlier.length]
      omega

/-- The slices cover the heap. -/
theorem heapSize_le (layout : HeapLayout) :
    layout.heapSize ≤
      (updateSlicesSize layout).nofSlices * (4 * (updateSlicesSize layout).sliceSize) := by
  have positive := sliceSize_pos layout
  have isCount : (updateSlicesSize layout).nofSlices =
      (layout.heapSize + (updateSlicesSize layout).sliceSize * 4 - 1) /
        ((updateSlicesSize layout).sliceSize * 4) := rfl
  rw [isCount, Nat.mul_comm 4]
  have whole := Nat.div_add_mod
    (layout.heapSize + (updateSlicesSize layout).sliceSize * 4 - 1)
    ((updateSlicesSize layout).sliceSize * 4)
  have rest := Nat.mod_lt
    (layout.heapSize + (updateSlicesSize layout).sliceSize * 4 - 1)
    (show 0 < (updateSlicesSize layout).sliceSize * 4 by omega)
  rw [Nat.mul_comm] at whole
  omega

/-! ## The run -/

/-- What holds when the pass has gone over the blocks `done`. -/
structure Computing.Reached (layout : HeapLayout) (area : Area) (done : List Block)
    (state : Computing) : Prop where
  place : state.p = area.start + totalSize done
  top : state.compactionTop = area.destination + liveSize done
  inSlice : state.InSlice layout
  words :
    ∀ obj destination, (obj, destination) ∈ forwards done area.start area.destination →
      Holds layout state.slices (state.klass obj) obj destination (area.klass obj)
  others :
    ∀ obj, (∀ destination, (obj, destination) ∉ forwards done area.start area.destination) →
      state.klass obj = area.klass obj
  started :
    (state.compactionStarted = false ∧ forwards done area.start area.destination = [] ∧
        state.compactionStart = area.areaEnd) ∨
      (state.compactionStarted = true ∧ ∃ destination rest,
        forwards done area.start area.destination = (state.compactionStart, destination) :: rest)

section Run

variable {layout : HeapLayout} {area : Area} {done : List Block} {state : Computing}

theorem Area.initial_reached (layout : HeapLayout) (area : Area) :
    (area.initial layout).Reached layout area [] where
  place := rfl
  top := rfl
  inSlice := ⟨by simp [Area.initial], Or.inl rfl⟩
  words := by
    intro obj destination found
    cases found
  others := by
    intro obj _
    rfl
  started := Or.inl ⟨rfl, rfl, rfl⟩

/-- Entering slices keeps what has been reached. -/
theorem Computing.Reached.enter
    (fuel : Nat)
    (reached : state.Reached layout area done) :
    (enterSlices (updateSlicesSize layout).sliceSize fuel state).Reached layout area done := by
  obtain ⟨more, nextSlice, thisSliceDestination, result, inSlice, _⟩ :=
    enterSlices_spec fuel state reached.inSlice
  rw [result] at inSlice ⊢
  exact
    { place := reached.place
      top := reached.top
      inSlice := inSlice
      words := fun obj destination found => (reached.words obj destination found).append more
      others := reached.others
      started := reached.started }

/-- The table has room for the rounds that lead to the slice of the object. -/
theorem Computing.Reached.entered
    (reached : state.Reached layout area done)
    (inHeap : state.p < layout.heapStart + layout.heapSize) :
    (enterSlices (updateSlicesSize layout).sliceSize (updateSlicesSize layout).nofSlices state).p <
      (enterSlices (updateSlicesSize layout).sliceSize
        (updateSlicesSize layout).nofSlices state).nextSlice := by
  obtain ⟨more, nextSlice, thisSliceDestination, result, _, beyond⟩ :=
    enterSlices_spec (updateSlicesSize layout).nofSlices state reached.inSlice
  have boundary := reached.inSlice.boundary
  have covered := heapSize_le layout
  rw [result]
  apply beyond
  omega

/-- A dead range is passed over. -/
theorem Computing.Reached.dead
    {size : Nat}
    (reached : state.Reached layout area done) :
    ({ state with p := state.p + size } : Computing).Reached layout area
      (done ++ [.dead size]) := by
  have same : forwards (done ++ [.dead size]) area.start area.destination =
      forwards done area.start area.destination := by
    rw [forwards_append, forwards, forwards, List.append_nil]
  exact
    { place := by
        rw [totalSize_append, totalSize_cons, totalSize_nil, Block.size]
        change state.p + size = _
        have := reached.place
        omega
      top := by
        rw [reached.top, liveSize_append]
        rfl
      inSlice := by
        refine ⟨reached.inSlice.boundary, ?_⟩
        rcases reached.inSlice.current with none | ⟨inTable, above, aligned, near⟩
        · exact Or.inl none
        · refine Or.inr ⟨inTable, above, aligned, ?_⟩
          dsimp only
          omega
      words := by
        rw [same]
        exact reached.words
      others := by
        rw [same]
        exact reached.others
      started := by
        rw [same]
        exact reached.started }

/-- A live object is given its word in the slice that was entered. -/
theorem Computing.Reached.live
    {size : Nat}
    (reached : state.Reached layout area done)
    (startInHeap : layout.heapStart ≤ area.start)
    (entered : state.p < state.nextSlice)
    (sized : ∀ block ∈ done, 0 < block.size)
    (aligned : size % 4 = 0) :
    (forwardObject layout size state).Reached layout area (done ++ [.live size]) := by
  have place := reached.place
  have more : forwards (done ++ [.live size]) area.start area.destination =
      forwards done area.start area.destination ++ [(state.p, state.compactionTop)] := by
    rw [forwards_append, forwards, forwards, reached.place, reached.top]
  have isNew : ∀ destination,
      (state.p, destination) ∉ forwards done area.start area.destination := by
    intro destination found
    have := forwards_bounds sized found
    omega
  have unwritten := reached.others state.p isNew
  obtain none | ⟨⟨earlier, isTable⟩, above, offsetAligned, near⟩ := reached.inSlice.current
  · have boundary := reached.inSlice.boundary
    rw [none, List.length_nil, Nat.zero_mul] at boundary
    omega
  have holds : Holds layout state.slices
      (encodeWord layout ((state.compactionTop - state.thisSliceDestination) / 4)
        (state.klass state.p))
      state.p state.compactionTop (area.klass state.p) := by
    refine ⟨state.thisSliceDestination,
      (state.compactionTop - state.thisSliceDestination) / 4, ?_, ?_, ?_, ?_⟩
    · have isLast := reached.inSlice.current_slice (by omega) entered
      rw [isTable, List.length_append, List.length_singleton, Nat.add_left_inj] at isLast
      rw [isLast, isTable, List.getElem?_append_right (Nat.le_refl _), Nat.sub_self]
      rfl
    · omega
    · omega
    · rw [unwritten]
  exact
    { place := by
        rw [totalSize_append, totalSize_cons, totalSize_nil, Block.size]
        change state.p + size = _
        omega
      top := by
        rw [liveSize_append]
        change state.compactionTop + size = area.destination + (liveSize done + (size + 0))
        rw [reached.top]
        omega
      inSlice := by
        refine ⟨reached.inSlice.boundary, Or.inr ⟨⟨earlier, isTable⟩, ?_, ?_, ?_⟩⟩
        · change state.thisSliceDestination ≤ state.compactionTop + size
          omega
        · change (state.compactionTop + size - state.thisSliceDestination) % 4 = 0
          omega
        · change state.compactionTop + size + state.nextSlice ≤
            state.p + size + state.thisSliceDestination + 4 * (updateSlicesSize layout).sliceSize
          omega
      words := by
        intro obj destination found
        rw [more] at found
        change Holds layout state.slices (Function.update state.klass state.p _ obj) _ _ _
        rcases List.mem_append.mp found with earlier | isThis
        · have other : obj ≠ state.p := by
            intro isThis
            exact isNew destination (isThis ▸ earlier)
          rw [Function.update_of_ne other]
          exact reached.words obj destination earlier
        · cases List.mem_singleton.mp isThis
          rw [Function.update_self]
          exact holds
      others := by
        intro obj fixed
        rw [more] at fixed
        change Function.update state.klass state.p _ obj = _
        have other : obj ≠ state.p := by
          intro isThis
          apply fixed state.compactionTop
          rw [isThis]
          exact List.mem_append_right _ (List.mem_singleton_self _)
        rw [Function.update_of_ne other]
        exact reached.others obj fun destination found =>
          fixed destination (List.mem_append_left _ found)
      started := by
        refine Or.inr ⟨rfl, ?_⟩
        rw [more]
        change ∃ destination rest, _ =
          (if state.compactionStarted then state.compactionStart else state.p, destination) :: rest
        rcases reached.started with ⟨notStarted, none, _⟩ | ⟨isStarted, destination, rest, first⟩
        · rw [none, notStarted]
          exact ⟨_, _, rfl⟩
        · rw [first, isStarted]
          exact ⟨_, _, rfl⟩ }

end Run

section Objects

variable {layout : HeapLayout} {area : Area}

theorem Area.WellFormed.sized
    (wellFormed : area.WellFormed layout)
    {first rest : List Block}
    (isWhole : area.blocks = first ++ rest) :
    ∀ block ∈ first, 0 < block.size := by
  intro block inFirst
  apply And.right
  apply wellFormed.sizesAligned
  rw [isWhole]
  exact List.mem_append_left _ inFirst

theorem Area.areaEnd_eq
    {first rest : List Block}
    (isWhole : area.blocks = first ++ rest) :
    area.areaEnd = area.start + totalSize first + totalSize rest := by
  have isEnd : area.areaEnd = area.start + totalSize area.blocks := rfl
  rw [isEnd, isWhole, totalSize_append, Nat.add_assoc]

/-- The pass reaches every block. -/
theorem Area.WellFormed.reached
    (placed : layout.WellPlaced)
    (wellFormed : area.WellFormed layout)
    (first rest : List Block)
    (isWhole : area.blocks = first ++ rest) :
    (area.computing layout first).Reached layout area first := by
  induction first using List.reverseRecOn generalizing rest with
  | nil =>
      exact area.initial_reached layout
  | append_singleton before block inductionHypothesis =>
      have isWholeBefore : area.blocks = before ++ block :: rest := by
        rw [isWhole, List.append_assoc, List.singleton_append]
      have reached := inductionHypothesis (block :: rest) isWholeBefore
      have blockSized := wellFormed.sizesAligned block (by simp [isWholeBefore])
      have isEnd := Area.areaEnd_eq isWholeBefore
      have endInHeap := wellFormed.endInHeap
      have markAreaInHeap := placed.markAreaInHeap
      have place := reached.place
      rw [totalSize_cons] at isEnd
      have entered := reached.entered (by omega)
      have afterEntering := reached.enter (updateSlicesSize layout).nofSlices
      have isStep : area.computing layout (before ++ [block]) =
          computeStep layout (area.computing layout before) block := by
        simp [Area.computing]
      rw [isStep]
      cases block with
      | live size =>
          exact afterEntering.live wellFormed.startInHeap entered
            (wellFormed.sized isWholeBefore) blockSized.1
      | dead size =>
          exact afterEntering.dead

/-- No object lies before the first one. -/
theorem forwards_head_le
    {blocks : List Block}
    {p top obj destination : Nat}
    {first : Nat × Nat}
    {rest : List (Nat × Nat)}
    (sized : ∀ block ∈ blocks, 0 < block.size)
    (isList : forwards blocks p top = first :: rest)
    (found : (obj, destination) ∈ forwards blocks p top) :
    first.1 ≤ obj := by
  induction blocks generalizing p top with
  | nil =>
      cases found
  | cons block blocks inductionHypothesis =>
      have restSized : ∀ block ∈ blocks, 0 < block.size := fun block inRest =>
        sized block (List.mem_cons_of_mem _ inRest)
      cases block with
      | live size =>
          have bounds := forwards_bounds sized found
          cases isList
          exact bounds.1
      | dead size =>
          exact inductionHypothesis restSized isList found

variable {first rest : List Block} {state : Computing}

/-- The test on an address tells the objects that have their words from those that have not. -/
theorem Computing.Reached.encoded_iff
    (wellFormed : area.WellFormed layout)
    (isWhole : area.blocks = first ++ rest)
    (reached : state.Reached layout area first)
    {obj : Nat}
    (alive : area.start ≤ obj → obj < area.areaEnd → area.Moves obj) :
    state.compactionStart ≤ obj ∧ obj < state.p ↔
      ∃ destination, (obj, destination) ∈ forwards first area.start area.destination := by
  have sized := wellFormed.sized isWhole
  have isEnd := Area.areaEnd_eq isWhole
  have place := reached.place
  constructor
  · rintro ⟨above, below⟩
    have fromStart : area.start ≤ obj := by
      rcases reached.started with ⟨_, _, isSentinel⟩ | ⟨_, destination, others, isList⟩
      · omega
      · have bounds := forwards_bounds sized
          (show (state.compactionStart, destination) ∈ _ by rw [isList]; exact List.mem_cons_self)
        omega
    obtain ⟨destination, found⟩ := alive fromStart (by omega)
    rw [Area.moving, isWhole, forwards_append] at found
    rcases List.mem_append.mp found with inFirst | inRest
    · exact ⟨destination, inFirst⟩
    · have restSized : ∀ block ∈ rest, 0 < block.size := by
        intro block inRest
        apply And.right
        apply wellFormed.sizesAligned
        rw [isWhole]
        exact List.mem_append_right _ inRest
      have bounds := forwards_bounds restSized inRest
      omega
  · rintro ⟨destination, found⟩
    have bounds := forwards_bounds sized found
    refine ⟨?_, by omega⟩
    rcases reached.started with ⟨_, none, _⟩ | ⟨_, firstDestination, others, isList⟩
    · rw [none] at found
      cases found
    · exact forwards_head_le sized isList found

/-- A first word is read as what it was before the pass. -/
theorem Computing.Reached.klassOf_eq
    (placed : layout.WellPlaced)
    (wellFormed : area.WellFormed layout)
    (isWhole : area.blocks = first ++ rest)
    (reached : state.Reached layout area first)
    {obj : Nat}
    (alive : area.start ≤ obj → obj < area.areaEnd → area.Moves obj) :
    state.klassOf layout state.p obj = area.klass obj := by
  have encoded := reached.encoded_iff wellFormed isWhole alive
  unfold Computing.klassOf
  by_cases isEncoded : state.compactionStart ≤ obj ∧ obj < state.p
  · obtain ⟨destination, found⟩ := encoded.mp isEncoded
    have moves : area.Moves obj := by
      refine ⟨destination, ?_⟩
      rw [Area.moving, isWhole, forwards_append]
      exact List.mem_append_left _ found
    rw [if_pos isEncoded]
    exact (reached.words obj destination found).decodeNear placed (wellFormed.nearValid obj moves)
  · rw [if_neg isEncoded]
    apply reached.others
    intro destination found
    exact isEncoded (encoded.mpr ⟨destination, found⟩)

end Objects

end PicoJvm.Compaction
