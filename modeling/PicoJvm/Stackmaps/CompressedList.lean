import PicoJvm.Lib.Attempt
import PicoJvm.Stackmaps.Generator

/-!
# Lists of compressed stack maps

An entry of a `StackmapList` is a word with a flag. When the flag is set, the word holds the map: the
flag, two bits for the height of the stack, four for the number of locals, nine for the bci, and
sixteen for the map. Otherwise it is the reference to an array, which has the number of locals, the
height, the bci and the words of the map.
-/

namespace PicoJvm.Stackmaps

open PicoJvm.Lib.Attempt

/-- A word, or the reference to an array of `unsigned short`; references are even. -/
inductive Entry
  | word (entry : BitVec 32)
  | reference (longmap : List (BitVec 16))
  deriving DecidableEq, Repr

namespace Entry

/-- `is_short_map`. -/
def isShortMap : Entry → Bool
  | .word entry => entry &&& 0x1#32 ≠ 0#32
  | .reference _ => false

/-- `get_short_map`. -/
def getShortMap : Entry → BitVec 16
  | .word entry => (entry >>> 16).setWidth 16
  | .reference _ => 0#16

/-- `get_long_map`, as the values of the array. -/
def getLongMap : Entry → List (BitVec 16)
  | .word _ => []
  | .reference longmap => longmap

/-- `get_stack_height`. -/
def getStackHeight : Entry → BitVec 16
  | .word entry => ((entry >>> 1) &&& 0x3#32).setWidth 16
  | .reference longmap => longmap.getD 1 0

/-- `get_locals`. -/
def getLocals : Entry → BitVec 16
  | .word entry => ((entry &&& 0x7F#32) >>> 3).setWidth 16
  | .reference longmap => longmap.getD 0 0

/-- `get_bci`. -/
def getBci : Entry → BitVec 16
  | .word entry => ((entry &&& 0xFFFF#32) >>> 7).setWidth 16
  | .reference longmap => longmap.getD 2 0

/-- `set_bci`. -/
def setBci (bci : BitVec 16) : Entry → Entry
  | .word entry => .word ((entry &&& 0xFFFF007F#32) ||| (bci.setWidth 32 <<< 7))
  | .reference longmap => .reference (longmap.set 2 bci)

/-- `update`. -/
def update (count height bci : BitVec 16) : Entry → Entry
  | .word entry =>
      .word (((entry ||| (((height.setWidth 32 &&& 0x3#32) <<< 1) ||| (count.setWidth 32 <<< 3)))
        &&& 0xFFFF007F#32) ||| (bci.setWidth 32 <<< 7))
  | .reference longmap => .reference (((longmap.set 0 count).set 1 height).set 2 bci)

end Entry

/-- `is_shortmap_type`. -/
def isShortmapType (locals stackHeight bci : BitVec 32) : Bool :=
  if 0xF < locals.toNat ∨ 0x1FF < bci.toNat ∨ 0x3 < stackHeight.toNat then
    false
  else if 0x10 < (stackHeight + locals).toNat then
    false
  else
    true

/-- How many words the array of a long map has. -/
def arrayMax (locals stack : Nat) : Nat :=
  (locals + stack + 15) / 16 + 3

/-- What ends a rewriting early. -/
inductive Thrown
  | outOfMemory
  deriving DecidableEq, Repr

/-- Works on a `StackmapList`. -/
abbrev Rewriting := EStateM Thrown (List Entry)

/-- The entry at an index. -/
def entryAt (index : Nat) : Rewriting Entry := do
  return (← get).getD index (.word 0#32)

/-- `convert_short_to_long_map`, when an array can be allocated for the entry or not. -/
def convertShortToLongMap (allocates : Bool) (index : Nat) : Rewriting Unit := do
  let entry ← entryAt index
  let locals := entry.getLocals
  let stack := entry.getStackHeight
  let bci := entry.getBci
  if allocates = false then
    throw .outOfMemory
  else
    let size := arrayMax locals.toNat stack.toNat
    let bitmap := List.replicate size 0#16
    let bitmap := if 3 < size then bitmap.set 3 entry.getShortMap else bitmap
    modify (·.set index (Entry.reference bitmap))
    modify (·.modify index (Entry.update locals stack bci))

/-- One round of the loop of `rewrite_stackmap_bcis`. -/
def rewriteEntry (allocates : Nat → Bool) (shiftedBci bciShift : BitVec 16) (index : Nat) :
    Rewriting Unit := do
  let entry ← entryAt index
  let mapBci := entry.getBci
  if shiftedBci.toNat ≤ mapBci.toNat then
    let sum := mapBci.setWidth 32 + bciShift.signExtend 32
    let isShort := isShortmapType (entry.getLocals.setWidth 32) (entry.getStackHeight.setWidth 32) sum
    if !isShort && entry.isShortMap then
      convertShortToLongMap (allocates index) index
    modify (·.modify index (Entry.setBci (sum.setWidth 16)))

/-- The loop of `rewrite_stackmap_bcis`, from an index for so many entries. -/
def rewriteFrom (allocates : Nat → Bool) (shiftedBci bciShift : BitVec 16) :
    Nat → Nat → Rewriting Unit
  | _, 0 => return ⟨⟩
  | index, more + 1 => do
      rewriteEntry allocates shiftedBci bciShift index
      rewriteFrom allocates shiftedBci bciShift (index + 1) more

/-- `rewrite_stackmap_bcis`, of the list of a method that has one. -/
def rewriteStackmapBcis (allocates : Nat → Bool) (shiftedBci bciShift : BitVec 16) :
    Rewriting Unit := do
  rewriteFrom allocates shiftedBci bciShift 0 (← get).length

/-! ## What the entries mean -/

/-- An entry as the generator makes it: the flag of a word is set, and an array has the words of its
map. -/
def Entry.Compressed : Entry → Prop
  | .word entry => entry &&& 0x1#32 ≠ 0#32
  | .reference longmap =>
      longmap.length = arrayMax (longmap.getD 0 0).toNat (longmap.getD 1 0).toNat

instance : ∀ entry : Entry, Decidable entry.Compressed
  | .word _ => inferInstanceAs (Decidable (_ ≠ _))
  | .reference _ => inferInstanceAs (Decidable (_ = _))

/-- The map that an entry stands for. -/
def Entry.stackmap (entry : Entry) : Stackmap where
  bci := entry.getBci.toNat
  locals := entry.getLocals.toNat
  stackHeight := entry.getStackHeight.toNat
  bitmap :=
    if entry.isShortMap then .short entry.getShortMap.toNat
    else .long ((entry.getLongMap.drop 3).map BitVec.toNat)

/-- A list of entries as the generator makes them. -/
structure CompressedMaps where
  entries : List Entry
  compressed : ∀ entry ∈ entries, entry.Compressed

end PicoJvm.Stackmaps
