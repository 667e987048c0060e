import PicoJvm.Text.CharArrays

/-!
# String buffers

`StringBuffer`, whose array of characters is shared with the strings made of it until it has to be
changed.
-/

namespace PicoJvm.Text

open PicoJvm.Lib PicoJvm.Lib.Attempt
open PicoJvm.Lib.Machine (signed)
open PicoJvm.Lib.Ring (overwrite overwrite_length)

/-- The fields of a `StringBuffer`. -/
structure StringBuffer where
  value : Nat
  count : Nat
  shared : Bool
  deriving DecidableEq, Repr

/-- What a method of a string buffer works on: the arrays, and its own fields. -/
structure Store where
  heap : Heap
  this : StringBuffer

/-- A method of a string buffer. -/
abbrev Method := EStateM Throwable Store

/-- The array of the buffer. -/
def Store.value (store : Store) : Chars :=
  store.heap.arrays store.this.value

/-- Works on the arrays. -/
def onHeap {result : Type} (attempt : EStateM Throwable Heap result) : Method result := fun store =>
  match attempt store.heap with
  | .ok value heap => .ok value { store with heap := heap }
  | .error thrown heap => .error thrown { store with heap := heap }

/-- Sets a character of the buffer's array. -/
def storeChar (index : Nat) (ch : UInt16) : Method Unit := do
  let store ← get
  if index < store.value.length then
    onHeap (set (Heap.mk
      (Function.update store.heap.arrays store.this.value (store.value.set index ch))
      store.heap.next))
  else
    throw .arrayIndexOutOfBounds

def setCount (count : Nat) : Method Unit :=
  modify fun store => { store with this.count := count }

/-! ## Arrays of the buffer -/

/-- `copy`. -/
def copy (memory : Memory) : Method Unit := do
  let newValue ← onHeap (newCharArray memory (← get).value.length)
  let store ← get
  onHeap (uncheckedArraycopy store.value 0 newValue 0 store.this.count)
  modify fun store => { store with this.value := newValue, this.shared := false }

/-- `expandCapacity`. -/
def expandCapacity (memory : Memory) (minimumCapacity : Int) : Method Unit := do
  let doubled := signed (signed ((← get).value.length + 1) * 2)
  let newCapacity :=
    if doubled < 0 then 2147483647
    else if doubled < minimumCapacity then minimumCapacity
    else doubled
  let newValue ← onHeap (newCharArray memory newCapacity)
  let store ← get
  onHeap (uncheckedArraycopy store.value 0 newValue 0 store.this.count)
  modify fun store => { store with this.value := newValue, this.shared := false }

/-- `ensureCapacity`, and the test that `append` makes. -/
def ensureCapacity (memory : Memory) (minimumCapacity : Int) : Method Unit := do
  if (← get).value.length < minimumCapacity then
    expandCapacity memory minimumCapacity

/-- The test that makes the array the buffer's own. -/
def unshare (memory : Memory) : Method Unit := do
  if (← get).this.shared then
    copy memory

/-- The tests that `insert` makes. -/
def growOrUnshare (memory : Memory) (newcount : Int) : Method Unit := do
  if (← get).value.length < newcount then
    expandCapacity memory newcount
  else
    unshare memory

/-! ## Methods -/

/-- The loop of `setLength` that appends null characters. -/
def appendZeros : Nat → Method Unit
  | 0 => return ⟨⟩
  | more + 1 => do
      storeChar (← get).this.count 0
      setCount ((← get).this.count + 1)
      appendZeros more

/-- `setLength`. -/
def setLength (memory : Memory) (newLength : Int) : Method Unit := do
  if newLength < 0 then
    throw .stringIndexOutOfBounds
  else
    ensureCapacity memory newLength
    let count := (← get).this.count
    if count < newLength then
      unshare memory
      appendZeros (newLength - count).toNat
    else
      setCount newLength.toNat
      if (← get).this.shared then
        if 0 < newLength then
          copy memory
        else
          let newValue ← onHeap (newCharArray memory 16)
          modify fun store => { store with this.value := newValue, this.shared := false }

/-- `setCharAt`. -/
def setCharAt (memory : Memory) (index : Int) (ch : UInt16) : Method Unit := do
  if index < 0 ∨ (← get).this.count ≤ index then
    throw .stringIndexOutOfBounds
  else
    unshare memory
    storeChar index.toNat ch

/-- `append(String)`, of a string that is not null. -/
def append (memory : Memory) (str : JavaString) : Method Unit := do
  let len := str.count
  let newcount := signed ((← get).this.count + len)
  ensureCapacity memory newcount
  let store ← get
  onHeap (str.getChars 0 len store.this.value store.this.count)
  setCount newcount.toNat

/-- `append(char[])`. -/
def appendChars (memory : Memory) (str : Chars) : Method Unit := do
  let len := str.length
  let newcount := signed ((← get).this.count + len)
  ensureCapacity memory newcount
  let store ← get
  onHeap (uncheckedArraycopy str 0 store.this.value store.this.count len)
  setCount newcount.toNat

/-- `append(char[], int, int)`. -/
def appendPart (memory : Memory) (str : Chars) (offset len : Int) : Method Unit := do
  let newcount := signed ((← get).this.count + len)
  ensureCapacity memory newcount
  let store ← get
  onHeap (systemArraycopy str offset store.this.value store.this.count len)
  setCount newcount.toNat

/-- `append(char)`. -/
def appendChar (memory : Memory) (c : UInt16) : Method Unit := do
  let newcount := signed ((← get).this.count + 1)
  ensureCapacity memory newcount
  storeChar (← get).this.count c
  setCount ((← get).this.count + 1)

/-- `delete`. -/
def delete (memory : Memory) (start finish : Int) : Method Unit := do
  if start < 0 then
    throw .stringIndexOutOfBounds
  else
    let count := (← get).this.count
    let finish := if count < finish then (count : Int) else finish
    if finish < start then
      throw .stringIndexOutOfBounds
    else
      let len := finish - start
      if 0 < len then
        unshare memory
        let store ← get
        onHeap (uncheckedArraycopy store.value (start + len) store.this.value start
          (count - finish))
        setCount (count - len).toNat

/-- `deleteCharAt`. -/
def deleteCharAt (memory : Memory) (index : Int) : Method Unit := do
  let count := (← get).this.count
  if index < 0 ∨ count ≤ index then
    throw .stringIndexOutOfBounds
  else
    unshare memory
    let store ← get
    onHeap (uncheckedArraycopy store.value (index + 1) store.this.value index
      (count - index - 1))
    setCount (count - 1)

/-- `insert(int, String)`, of a string that is not null. -/
def insert (memory : Memory) (offset : Int) (str : JavaString) : Method Unit := do
  let count := (← get).this.count
  if offset < 0 ∨ count < offset then
    throw .stringIndexOutOfBounds
  else
    let len := str.count
    let newcount := signed (count + len)
    growOrUnshare memory newcount
    let store ← get
    onHeap (uncheckedArraycopy store.value offset store.this.value (offset + len) (count - offset))
    onHeap (str.getChars 0 len store.this.value offset)
    setCount newcount.toNat

/-- `insert(int, char[])`. -/
def insertChars (memory : Memory) (offset : Int) (str : Chars) : Method Unit := do
  let count := (← get).this.count
  if offset < 0 ∨ count < offset then
    throw .stringIndexOutOfBounds
  else
    let len := str.length
    let newcount := signed (count + len)
    growOrUnshare memory newcount
    let store ← get
    onHeap (uncheckedArraycopy store.value offset store.this.value (offset + len) (count - offset))
    onHeap (uncheckedArraycopy str 0 store.this.value offset len)
    setCount newcount.toNat

/-- `insert(int, char)`. -/
def insertChar (memory : Memory) (offset : Int) (c : UInt16) : Method Unit := do
  let count := (← get).this.count
  let newcount := signed (count + 1)
  growOrUnshare memory newcount
  let store ← get
  onHeap (systemArraycopy store.value offset store.this.value (signed (offset + 1))
    (signed (count - offset)))
  storeChar offset.toNat c
  setCount newcount.toNat

/-- The loop of `reverse`: swaps the characters before a place with those at the other end. -/
def reverseLoop (n : Nat) : Nat → Method Unit
  | 0 => return ⟨⟩
  | j + 1 => do
      let value := (← get).value
      let temp := value.getD j 0
      storeChar j (value.getD (n - j) 0)
      storeChar (n - j) temp
      reverseLoop n j

/-- `reverse`. -/
def reverse (memory : Memory) : Method Unit := do
  unshare memory
  let n : Int := (← get).this.count - 1
  -- `(n - 1) >> 1` is the first place of the loop, which goes down to zero
  reverseLoop n.toNat ((n - 1) / 2 + 1).toNat

/-- `toString`. -/
def toString (memory : Memory) : Method JavaString := do
  onHeap (newObject memory)
  modify fun store => { store with this.shared := true }
  let store ← get
  return { value := store.this.value, offset := 0, count := store.this.count }

end PicoJvm.Text
