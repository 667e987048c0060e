import PicoJvm.Lib.Attempt
import PicoJvm.Lib.Machine
import PicoJvm.Lib.Ring
import Mathlib.Logic.Function.Basic

/-!
# Arrays of characters

The arrays of characters that strings and string buffers hold, and the copies between them.
-/

namespace PicoJvm.Text

open PicoJvm.Lib PicoJvm.Lib.Attempt
open PicoJvm.Lib.Ring (overwrite overwrite_length)

abbrev Chars := List UInt16

/-- What ends a method without a result. The last one is none of Java: an unchecked copy has gone
outside its arrays. -/
inductive Throwable
  | stringIndexOutOfBounds
  | arrayIndexOutOfBounds
  | negativeArraySize
  | nullPointer
  | outOfMemory
  | fault
  deriving DecidableEq, Repr

/-- The arrays of characters, in the order in which they were allocated. -/
structure Heap where
  arrays : Nat → Chars
  next : Nat

/-- Which arrays of characters, and whether an object, can be allocated while a method runs. -/
structure Memory where
  array : Int → Bool
  object : Bool

/-- `new char[length]`. -/
def newCharArray (memory : Memory) (length : Int) : EStateM Throwable Heap Nat := do
  if length < 0 then
    throw .negativeArraySize
  else if 0x08000000 < length ∨ memory.array length = false then
    throw .outOfMemory
  else
    let heap ← get
    set (Heap.mk (Function.update heap.arrays heap.next (List.replicate length.toNat 0))
      (heap.next + 1))
    return heap.next

/-- Whether an array of a length can be allocated. -/
def Memory.Allocates (memory : Memory) (length : Int) : Prop :=
  0 ≤ length ∧ length ≤ 0x08000000 ∧ memory.array length = true

instance (memory : Memory) (length : Int) : Decidable (memory.Allocates length) :=
  inferInstanceAs (Decidable (_ ∧ _))

/-- Whether a part of an array is inside it. -/
def Inside (chars : Chars) (offset length : Int) : Prop :=
  0 ≤ offset ∧ 0 ≤ length ∧ offset + length ≤ chars.length

instance (chars : Chars) (offset length : Int) : Decidable (Inside chars offset length) :=
  inferInstanceAs (Decidable (_ ∧ _))

/-- Copies a part of an array into one of the heap. When a part is outside its array, the copy ends
as told. -/
def copyInto (outside : Throwable) (source : Chars) (sourceOffset : Int) (array : Nat)
    (offset length : Int) : EStateM Throwable Heap Unit := do
  let heap ← get
  if Inside source sourceOffset length ∧ Inside (heap.arrays array) offset length then
    set (Heap.mk
      (Function.update heap.arrays array
        (overwrite (heap.arrays array) offset.toNat
          ((source.drop sourceOffset.toNat).take length.toNat)))
      heap.next)
  else
    throw outside

/-- `System.arraycopy`. -/
def systemArraycopy : Chars → Int → Nat → Int → Int → EStateM Throwable Heap Unit :=
  copyInto .arrayIndexOutOfBounds

/-- `JVM.unchecked_char_arraycopy`. -/
def uncheckedArraycopy : Chars → Int → Nat → Int → Int → EStateM Throwable Heap Unit :=
  copyInto .fault

/-! ## Strings -/

/-- A `String`: a part of an array. -/
structure JavaString where
  value : Nat
  offset : Nat
  count : Nat
  deriving DecidableEq, Repr

/-- The characters of a string. -/
def JavaString.chars (string : JavaString) (heap : Heap) : Chars :=
  ((heap.arrays string.value).drop string.offset).take string.count

/-- `String.getChars`. -/
def JavaString.getChars (string : JavaString) (srcBegin srcEnd : Int) (array : Nat)
    (dstBegin : Int) : EStateM Throwable Heap Unit := do
  if srcBegin < 0 then
    throw .stringIndexOutOfBounds
  else if string.count < srcEnd then
    throw .stringIndexOutOfBounds
  else if srcEnd < srcBegin then
    throw .stringIndexOutOfBounds
  else
    systemArraycopy ((← get).arrays string.value) (string.offset + srcBegin) array dstBegin
      (srcEnd - srcBegin)

/-- `new String`, before its constructor runs. -/
def newObject (memory : Memory) : EStateM Throwable Heap Unit := do
  if memory.object = false then throw .outOfMemory else return ⟨⟩

/-- `String(char[])`. -/
def stringOf (memory : Memory) (value : Chars) : EStateM Throwable Heap JavaString := do
  let array ← newCharArray memory value.length
  uncheckedArraycopy value 0 array 0 value.length
  return { value := array, offset := 0, count := value.length }

/-- `substring`. -/
def JavaString.substring (memory : Memory) (string : JavaString) (beginIndex endIndex : Int) :
    EStateM Throwable Heap JavaString := do
  if beginIndex < 0 then
    throw .stringIndexOutOfBounds
  else if string.count < endIndex then
    throw .stringIndexOutOfBounds
  else if endIndex < beginIndex then
    throw .stringIndexOutOfBounds
  else if beginIndex = 0 ∧ endIndex = string.count then
    return string
  else
    newObject memory
    return {
      value := string.value
      offset := string.offset + beginIndex.toNat
      count := (endIndex - beginIndex).toNat }

/-- `concat`. -/
def JavaString.concat (memory : Memory) (string other : JavaString) :
    EStateM Throwable Heap JavaString := do
  let otherLen := other.count
  if otherLen = 0 then
    return string
  else
    let buf ← newCharArray memory (Machine.signed (string.count + otherLen))
    string.getChars 0 string.count buf 0
    other.getChars 0 otherLen buf string.count
    newObject memory
    return { value := buf, offset := 0, count := string.count + otherLen }

/-! ## What the array operations do -/

theorem newCharArray_ensures (memory : Memory) (length : Int) (heap : Heap) :
    Ensures (newCharArray memory length) heap
      (fun array after => 0 ≤ length ∧ length ≤ 0x08000000 ∧ array = heap.next ∧
        after = Heap.mk
          (Function.update heap.arrays heap.next (List.replicate length.toNat 0)) (heap.next + 1))
      (fun thrown after => thrown ≠ .fault ∧ after = heap ∧ ¬ memory.Allocates length) := by
  apply Ensures.ite
  · intro negative
    exact Ensures.throw ⟨by decide, rfl, fun allocates => by have := allocates.1; omega⟩
  · intro nonneg
    apply Ensures.ite
    · intro tooLong
      refine Ensures.throw ⟨by decide, rfl, fun allocates => ?_⟩
      rcases tooLong with tooLong | refused
      · have := allocates.2.1
        omega
      · have allowed := allocates.2.2
        rw [refused] at allowed
        cases allowed
    · intro fits
      refine Ensures.bind (Ensures.get (Ensures.bind (Ensures.set (Ensures.pure ?_))))
      exact ⟨by omega, by omega, rfl, rfl⟩

theorem copyInto_ensures
    {outside : Throwable} {source : Chars} {sourceOffset : Int} {array : Nat}
    {offset length : Int} {heap : Heap}
    {onOk : Unit → Heap → Prop} {onError : Throwable → Heap → Prop}
    (whenInside : Inside source sourceOffset length →
      Inside (heap.arrays array) offset length →
      onOk ⟨⟩ (Heap.mk
        (Function.update heap.arrays array
          (overwrite (heap.arrays array) offset.toNat
            ((source.drop sourceOffset.toNat).take length.toNat)))
        heap.next))
    (whenOutside : ¬ (Inside source sourceOffset length ∧
      Inside (heap.arrays array) offset length) → onError outside heap) :
    Ensures (copyInto outside source sourceOffset array offset length) heap onOk onError := by
  refine Ensures.bind (Ensures.get (Ensures.ite ?_ ?_))
  · intro inside
    exact Ensures.set (whenInside inside.1 inside.2)
  · intro notInside
    exact Ensures.throw (whenOutside notInside)

theorem JavaString.chars_length
    {string : JavaString} {heap : Heap}
    (inside : string.offset + string.count ≤ (heap.arrays string.value).length) :
    (string.chars heap).length = string.count := by
  rw [chars, List.length_take, List.length_drop]
  omega

/-- All characters of a string are copied, when there is room for them. -/
theorem JavaString.getChars_ensures
    {string : JavaString} {array : Nat} {dstBegin : Int} {heap : Heap}
    {onOk : Unit → Heap → Prop} {onError : Throwable → Heap → Prop}
    (inside : string.offset + string.count ≤ (heap.arrays string.value).length)
    (room : 0 ≤ dstBegin ∧ dstBegin + string.count ≤ (heap.arrays array).length)
    (holds : onOk ⟨⟩ (Heap.mk
      (Function.update heap.arrays array
        (overwrite (heap.arrays array) dstBegin.toNat (string.chars heap)))
      heap.next)) :
    Ensures (string.getChars 0 string.count array dstBegin) heap onOk onError := by
  rw [getChars, if_neg (by omega), if_neg (by omega), if_neg (by omega)]
  refine Ensures.bind (Ensures.get (copyInto_ensures ?_ ?_))
  · intro _ _
    have first : ((string.offset : Int) + 0).toNat = string.offset := by
      omega
    have last : ((string.count : Int) - 0).toNat = string.count := by
      omega
    rw [first, last]
    exact holds
  · intro notInside
    refine absurd ⟨⟨by omega, by omega, ?_⟩, room.1, by omega, ?_⟩ notInside
    · omega
    · omega

end PicoJvm.Text
