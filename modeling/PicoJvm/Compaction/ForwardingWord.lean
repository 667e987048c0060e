import Mathlib.Data.Nat.Size
import PicoJvm.Lib.PackedWord

/-!
# The first word of a moving object

While a collection is under way, the first word of an object that is going to move holds its near
pointer and a part of its destination. How the word is divided follows from the sizes of the heap
and of the ROM image.
-/

namespace PicoJvm.Compaction

open PicoJvm.Lib.PackedWord

/-! ## Sizes -/

/-- Where the heap and the two system blocks of the ROM image are, in bytes. -/
structure HeapLayout where
  heapStart : Nat
  heapSize : Nat
  markAreaEnd : Nat
  romTextStart : Nat
  romTextSize : Nat
  romDataStart : Nat
  romDataSize : Nat

/-- The loop `for (; s != 0; s >>= 1)` over a `size_t`. -/
def countBits : Nat → Nat → Nat
  | 0, _ => 0
  | fuel + 1, s => if s ≠ 0 then countBits fuel (s >>> 1) + 1 else 0

/-- `ROM::get_max_offset()`. -/
def HeapLayout.getMaxOffset (layout : HeapLayout) : Nat :=
  (if layout.romTextSize > layout.romDataSize then layout.romTextSize else layout.romDataSize) <<< 1

/-- The `near_bits` of `update_slices_size`. -/
def HeapLayout.nearBits (layout : HeapLayout) : Nat :=
  let nearBits := countBits 32 ((layout.heapSize - 1) >>> 2)
  let romNearBits := countBits 32 layout.getMaxOffset
  if nearBits < romNearBits then romNearBits else nearBits

/-- What `update_slices_size` sets, with the slice size in words. -/
structure SliceSizes where
  nearMask : Nat
  sliceShift : Nat
  sliceOffsetBits : Nat
  sliceOffsetMask : Nat
  sliceSize : Nat
  nofSlices : Nat
  deriving DecidableEq, Repr

/-- `update_slices_size`. -/
def updateSlicesSize (layout : HeapLayout) : SliceSizes :=
  let nearBits := layout.nearBits
  let sliceOffsetBits := 32 - nearBits - 1
  let sliceSize := 1 <<< sliceOffsetBits
  let sliceSizeInBytes := sliceSize * 4
  { nearMask := lowMask nearBits
    sliceShift := nearBits
    sliceOffsetBits := sliceOffsetBits
    sliceOffsetMask := highMask nearBits
    sliceSize := sliceSize
    nofSlices := (layout.heapSize + sliceSizeInBytes - 1) / sliceSizeInBytes }

/-! ## Near pointers -/

/-- `ObjectHeap::contains(target)`. -/
def HeapLayout.contains (layout : HeapLayout) (target : Nat) : Bool :=
  decide (layout.heapStart ≤ target ∧ target < layout.markAreaEnd)

/-- `DISTANCE(start, obj)` as a `size_t`. -/
def distance (start obj : Nat) : Nat :=
  (obj + 2 ^ 32 - start) % 2 ^ 32

/-- `rom_offset_of(obj)`: even in the text block, odd in the data block. -/
def HeapLayout.romOffsetOf (layout : HeapLayout) (obj : Nat) : Nat :=
  let offset := distance layout.romTextStart obj
  if offset < layout.romTextSize then
    offset
  else
    distance layout.romDataStart obj + 1

/-- `rom_oop_from_offset(offset)`. -/
def HeapLayout.romOopFromOffset (layout : HeapLayout) (offset : Nat) : Nat :=
  if offset % 2 = 0 then
    layout.romTextStart + offset
  else
    layout.romDataStart + (offset - 1)

/-- The word stored for an object that moves to `sliceOffset` words from where its slice goes. -/
def encodeWord (layout : HeapLayout) (sliceOffset near : Nat) : Nat :=
  let sizes := updateSlicesSize layout
  let nearOffset :=
    if layout.contains near then
      (near - layout.heapStart) / 4
    else
      layout.romOffsetOf near ||| 0x80000000
  (sliceOffset <<< sizes.sliceShift) % 2 ^ 32 ||| nearOffset

/-- `decode_near`, of the word it reads. -/
def decodeNear (layout : HeapLayout) (klass : Nat) : Nat :=
  let nearOffset := klass &&& (updateSlicesSize layout).nearMask
  if klass < 2 ^ 31 then
    layout.heapStart + 4 * nearOffset
  else
    layout.romOopFromOffset nearOffset

/-- The `slice_offset` of `decode_destination`, of the word it reads. -/
def decodeSliceOffset (layout : HeapLayout) (klass : Nat) : Nat :=
  let sizes := updateSlicesSize layout
  (klass &&& sizes.sliceOffsetMask) >>> sizes.sliceShift

/-- The word after `update_moving_object_near_pointer`, for a near object that moves. -/
def updateNear (layout : HeapLayout) (klass newNear : Nat) : Nat :=
  (klass &&& (updateSlicesSize layout).sliceOffsetMask) ||| (newNear - layout.heapStart) / 4

/-- `decode_destination`, with the table of the slices. An index outside the table is none. -/
def decodeDestination (layout : HeapLayout) (slices : List Nat) (obj klass : Nat) : Option Nat :=
  let sliceIndex := ((obj - layout.heapStart) / 4) >>> (updateSlicesSize layout).sliceOffsetBits
  slices[sliceIndex]?.map fun sliceStart => sliceStart + 4 * decodeSliceOffset layout klass

/-! ## What start-up leaves -/

/-- The heap is a number of whole words, more than two, as an `int` can say it; the ROM image fits
the `int` its doubled size is held in; the parts lie apart in one address space. -/
structure HeapLayout.WellPlaced (layout : HeapLayout) : Prop where
  heapAligned : layout.heapSize % 4 = 0
  heapNotTiny : 8 < layout.heapSize
  heapFits : layout.heapSize < 2 ^ 31
  markAreaInHeap : layout.markAreaEnd ≤ layout.heapStart + layout.heapSize
  textFits : layout.romTextSize < 2 ^ 30
  dataFits : layout.romDataSize < 2 ^ 30
  textInSpace : layout.romTextStart + layout.romTextSize ≤ 2 ^ 32
  dataInSpace : layout.romDataStart + layout.romDataSize ≤ 2 ^ 32
  textDataApart :
    layout.romTextStart + layout.romTextSize ≤ layout.romDataStart ∨
      layout.romDataStart + layout.romDataSize ≤ layout.romTextStart
  textHeapApart :
    layout.romTextStart + layout.romTextSize ≤ layout.heapStart ∨
      layout.markAreaEnd ≤ layout.romTextStart
  dataHeapApart :
    layout.romDataStart + layout.romDataSize ≤ layout.heapStart ∨
      layout.markAreaEnd ≤ layout.romDataStart

/-- The addresses of near objects: words of the heap, of the ROM text or of the ROM data. -/
inductive HeapLayout.IsNear (layout : HeapLayout) : Nat → Prop
  | heap {near : Nat} :
      layout.heapStart ≤ near → near < layout.markAreaEnd →
      (near - layout.heapStart) % 4 = 0 → layout.IsNear near
  | text {near : Nat} :
      layout.romTextStart ≤ near → near < layout.romTextStart + layout.romTextSize →
      (near - layout.romTextStart) % 4 = 0 → layout.IsNear near
  | data {near : Nat} :
      layout.romDataStart ≤ near → near < layout.romDataStart + layout.romDataSize →
      (near - layout.romDataStart) % 4 = 0 → layout.IsNear near

/-! ## The number of bits -/

theorem lt_two_pow_countBits
    (fuel s : Nat)
    (enough : s < 2 ^ fuel) :
    s < 2 ^ countBits fuel s := by
  induction fuel generalizing s with
  | zero =>
      simpa [countBits] using enough
  | succ fuel inductionHypothesis =>
      unfold countBits
      split
      · have half : s >>> 1 = s / 2 := by rw [Nat.shiftRight_eq_div_pow]
        rw [half, Nat.pow_succ]
        have := inductionHypothesis (s / 2) (by omega)
        omega
      · simp_all

theorem countBits_le
    (fuel s bound : Nat)
    (small : s < 2 ^ bound) :
    countBits fuel s ≤ bound := by
  induction fuel generalizing s bound with
  | zero =>
      exact Nat.zero_le _
  | succ fuel inductionHypothesis =>
      unfold countBits
      split
      · rename_i nonzero
        cases bound with
        | zero =>
            omega
        | succ bound =>
            have half : s >>> 1 = s / 2 := by rw [Nat.shiftRight_eq_div_pow]
            rw [half]
            have := inductionHypothesis (s / 2) bound (by omega)
            omega
      · exact Nat.zero_le _

section Layout

variable {layout : HeapLayout}

theorem HeapLayout.WellPlaced.nearBits_le
    (placed : layout.WellPlaced) :
    layout.nearBits ≤ 31 := by
  have heapFits := placed.heapFits
  have textFits := placed.textFits
  have dataFits := placed.dataFits
  have words : (layout.heapSize - 1) >>> 2 < 2 ^ 31 := by
    rw [Nat.shiftRight_eq_div_pow]
    omega
  have offsets : layout.getMaxOffset < 2 ^ 31 := by
    unfold HeapLayout.getMaxOffset
    rw [Nat.shiftLeft_eq]
    split <;> omega
  have heapBits := countBits_le 32 _ _ words
  have romBits := countBits_le 32 _ _ offsets
  unfold HeapLayout.nearBits
  dsimp only
  split <;> omega

theorem HeapLayout.WellPlaced.two_le_nearBits
    (placed : layout.WellPlaced) :
    2 ≤ layout.nearBits := by
  have aligned := placed.heapAligned
  have notTiny := placed.heapNotTiny
  have heapFits := placed.heapFits
  have words : 2 ≤ (layout.heapSize - 1) >>> 2 ∧ (layout.heapSize - 1) >>> 2 < 2 ^ 32 := by
    rw [Nat.shiftRight_eq_div_pow]
    omega
  have counted := lt_two_pow_countBits 32 _ words.2
  have heapBits : 2 ≤ countBits 32 ((layout.heapSize - 1) >>> 2) := by
    by_contra few
    have := Nat.pow_le_pow_right (show 0 < 2 by decide)
      (show countBits 32 ((layout.heapSize - 1) >>> 2) ≤ 1 by omega)
    omega
  unfold HeapLayout.nearBits
  dsimp only
  split <;> omega

/-- Every word of the heap has an offset that fits. -/
theorem HeapLayout.WellPlaced.heapOffset_lt
    (placed : layout.WellPlaced)
    {offset : Nat}
    (inHeap : offset < layout.heapSize) :
    offset / 4 < 2 ^ layout.nearBits := by
  have heapFits := placed.heapFits
  have aligned := placed.heapAligned
  have words : (layout.heapSize - 1) >>> 2 < 2 ^ 32 := by
    rw [Nat.shiftRight_eq_div_pow]
    omega
  have counted := lt_two_pow_countBits 32 _ words
  have below : offset / 4 ≤ (layout.heapSize - 1) >>> 2 := by
    rw [Nat.shiftRight_eq_div_pow]
    omega
  have bits : countBits 32 ((layout.heapSize - 1) >>> 2) ≤ layout.nearBits := by
    unfold HeapLayout.nearBits
    dsimp only
    split <;> omega
  have := Nat.pow_le_pow_right (show 0 < 2 by decide) bits
  omega

/-- Every offset into the ROM image fits, also with its lowest bit set. -/
theorem HeapLayout.WellPlaced.romOffset_lt
    (placed : layout.WellPlaced)
    {offset : Nat}
    (inRom : offset < layout.romTextSize ∨ offset < layout.romDataSize) :
    offset + 1 < 2 ^ layout.nearBits := by
  have textFits := placed.textFits
  have dataFits := placed.dataFits
  have beyond : offset + 1 < layout.getMaxOffset := by
    unfold HeapLayout.getMaxOffset
    rw [Nat.shiftLeft_eq]
    split <;> omega
  have counted := lt_two_pow_countBits 32 layout.getMaxOffset (by
    unfold HeapLayout.getMaxOffset
    rw [Nat.shiftLeft_eq]
    split <;> omega)
  have bits : countBits 32 layout.getMaxOffset ≤ layout.nearBits := by
    unfold HeapLayout.nearBits
    dsimp only
    split <;> omega
  have := Nat.pow_le_pow_right (show 0 < 2 by decide) bits
  omega

theorem distance_eq
    {start obj : Nat}
    (above : start ≤ obj)
    (inSpace : obj < 2 ^ 32) :
    distance start obj = obj - start := by
  unfold distance
  omega

/-- The distance to an object outside a block is not below the size of the block. -/
theorem le_distance
    {start obj size : Nat}
    (inSpace : start + size ≤ 2 ^ 32)
    (objInSpace : obj < 2 ^ 32)
    (outside : obj < start ∨ start + size ≤ obj) :
    size ≤ distance start obj := by
  unfold distance
  omega

/-- The word of a near pointer is a packed word whose low field and flag stand for it. -/
theorem encodeWord_eq_pack
    (placed : layout.WellPlaced)
    {near : Nat}
    (isNear : layout.IsNear near) :
    ∃ low flag, (∀ sliceOffset,
        encodeWord layout sliceOffset near = pack layout.nearBits sliceOffset low flag) ∧
      low < 2 ^ layout.nearBits ∧
      (if flag then layout.romOopFromOffset low else layout.heapStart + 4 * low) = near := by
  have textInSpace := placed.textInSpace
  have dataInSpace := placed.dataInSpace
  cases isNear with
  | heap above below aligned =>
      have inArea := placed.markAreaInHeap
      have inHeap : layout.contains near = true := decide_eq_true ⟨above, below⟩
      refine ⟨(near - layout.heapStart) / 4, false, ?_, placed.heapOffset_lt (by omega), ?_⟩
      · intro sliceOffset
        simp only [encodeWord, inHeap, if_true, pack, signBit, Bool.false_eq_true, if_false,
          Nat.or_zero]
        rfl
      · simp only [Bool.false_eq_true, if_false]
        omega
  | text above below aligned =>
      have apart := placed.textHeapApart
      have notInHeap : layout.contains near = false := decide_eq_false (by omega)
      have isDistance := distance_eq above (by omega)
      have offset : layout.romOffsetOf near = near - layout.romTextStart := by
        rw [HeapLayout.romOffsetOf, isDistance]
        exact if_pos (by omega)
      have fits := placed.romOffset_lt (Or.inl (show near - layout.romTextStart < _ by omega))
      refine ⟨near - layout.romTextStart, true, ?_, by omega, ?_⟩
      · intro sliceOffset
        simp only [encodeWord, notInHeap, Bool.false_eq_true, if_false, offset, pack, signBit,
          if_true]
        rfl
      · rw [if_pos rfl, HeapLayout.romOopFromOffset, if_pos (by omega)]
        omega
  | data above below aligned =>
      have apart := placed.dataHeapApart
      have textApart := placed.textDataApart
      have notInHeap : layout.contains near = false := decide_eq_false (by omega)
      have isDistance := distance_eq above (by omega)
      have beyondText := le_distance placed.textInSpace (show near < 2 ^ 32 by omega)
        (by omega)
      have offset : layout.romOffsetOf near = near - layout.romDataStart + 1 := by
        rw [HeapLayout.romOffsetOf, isDistance]
        exact if_neg (by omega)
      have fits := placed.romOffset_lt (Or.inr (show near - layout.romDataStart < _ by omega))
      refine ⟨near - layout.romDataStart + 1, true, ?_, fits, ?_⟩
      · intro sliceOffset
        simp only [encodeWord, notInHeap, Bool.false_eq_true, if_false, offset, pack, signBit,
          if_true]
        rfl
      · rw [if_pos rfl, HeapLayout.romOopFromOffset, if_neg (by omega)]
        omega

theorem sliceSize_eq
    (placed : layout.WellPlaced) :
    (updateSlicesSize layout).sliceSize = 2 ^ (31 - layout.nearBits) := by
  have := placed.nearBits_le
  have bits : 32 - layout.nearBits - 1 = 31 - layout.nearBits := by omega
  change 1 <<< (32 - layout.nearBits - 1) = _
  rw [bits, Nat.one_shiftLeft]

/-- The sizes of `update_slices_size` are computed without overflow. -/
theorem updateSlicesSize_fits
    (placed : layout.WellPlaced) :
    (updateSlicesSize layout).sliceSize * 4 ≤ 2 ^ 31 ∧
      layout.heapSize + (updateSlicesSize layout).sliceSize * 4 - 1 < 2 ^ 32 := by
  have heapFits := placed.heapFits
  have atLeast := placed.two_le_nearBits
  have bound : (2 : Nat) ^ (31 - layout.nearBits) ≤ 2 ^ 29 :=
    Nat.pow_le_pow_right (by decide) (by omega)
  rw [sliceSize_eq placed]
  omega

/-- The near pointer comes back from the word. -/
theorem decodeNear_encodeWord
    (placed : layout.WellPlaced)
    {near sliceOffset : Nat}
    (isNear : layout.IsNear near)
    (inSlice : sliceOffset < (updateSlicesSize layout).sliceSize) :
    decodeNear layout (encodeWord layout sliceOffset near) = near := by
  obtain ⟨low, flag, isPack, lowFits, isLow⟩ := encodeWord_eq_pack placed isNear
  rw [sliceSize_eq placed] at inSlice
  have lowField := pack_low flag placed.nearBits_le inSlice lowFits
  have sign := pack_sign flag placed.nearBits_le inSlice lowFits
  rw [decodeNear, isPack]
  change (if pack layout.nearBits sliceOffset low flag < 2 ^ 31 then
      layout.heapStart + 4 * (pack layout.nearBits sliceOffset low flag &&& lowMask layout.nearBits)
    else layout.romOopFromOffset (pack layout.nearBits sliceOffset low flag &&&
      lowMask layout.nearBits)) = near
  rw [lowField]
  cases flag with
  | false =>
      rw [if_pos (sign.mpr rfl)]
      exact isLow
  | true =>
      rw [if_neg (fun below => Bool.noConfusion (sign.mp below))]
      exact isLow

/-- The offset within the slice comes back from the word. -/
theorem decodeSliceOffset_encodeWord
    (placed : layout.WellPlaced)
    {near sliceOffset : Nat}
    (isNear : layout.IsNear near)
    (inSlice : sliceOffset < (updateSlicesSize layout).sliceSize) :
    decodeSliceOffset layout (encodeWord layout sliceOffset near) = sliceOffset := by
  obtain ⟨low, flag, isPack, lowFits, _⟩ := encodeWord_eq_pack placed isNear
  rw [sliceSize_eq placed] at inSlice
  rw [isPack]
  exact pack_high flag placed.nearBits_le inSlice lowFits

/-- Replacing a near pointer by that of the moved near object gives the word of the new one. -/
theorem updateNear_encodeWord
    (placed : layout.WellPlaced)
    {near newNear sliceOffset : Nat}
    (isNear : layout.IsNear near)
    (above : layout.heapStart ≤ newNear)
    (below : newNear < layout.markAreaEnd)
    (inSlice : sliceOffset < (updateSlicesSize layout).sliceSize) :
    updateNear layout (encodeWord layout sliceOffset near) newNear =
      encodeWord layout sliceOffset newNear := by
  obtain ⟨low, flag, isPack, lowFits, _⟩ := encodeWord_eq_pack placed isNear
  have inArea := placed.markAreaInHeap
  have newFits : (newNear - layout.heapStart) / 4 < 2 ^ layout.nearBits :=
    placed.heapOffset_lt (by omega)
  have inHeap : layout.contains newNear = true := decide_eq_true ⟨above, below⟩
  rw [sliceSize_eq placed] at inSlice
  have packed := repack flag placed.nearBits_le inSlice lowFits newFits
  have encoded : encodeWord layout sliceOffset newNear =
      pack layout.nearBits sliceOffset ((newNear - layout.heapStart) / 4) false := by
    simp only [encodeWord, inHeap, if_true, pack, signBit, Bool.false_eq_true, if_false,
      Nat.or_zero]
    rfl
  rw [isPack, encoded]
  exact packed

end Layout

end PicoJvm.Compaction
