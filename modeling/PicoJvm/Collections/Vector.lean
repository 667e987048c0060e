import PicoJvm.Collections.Hashtable
import PicoJvm.Lib.Ring

/-!
# Vector

`java.util.Vector`: the elements stand at the front of an array that is exchanged for a longer one.
-/

namespace PicoJvm.Collections.Vectors

open PicoJvm.Lib.Machine
open PicoJvm.Lib.Ring (overwrite)

/-! ## Data -/

/-- A `Vector`. A null reference is `none`. -/
structure Vector (object : Type) where
  elementData : List (Option object)
  elementCount : Int
  capacityIncrement : Int
  deriving DecidableEq, Repr

/-- What a method throws. -/
inductive Failure
  | illegalArgument
  | arrayIndexOutOfBounds
  | indexOutOfBounds
  | noSuchElement
  | emptyStack
  | outOfMemory
  deriving DecidableEq, Repr

section Methods

variable {object : Type}

/-- The array access `data[index]`. -/
def load (data : List (Option object)) (index : Int) : Except Failure (Option object) :=
  if index < 0 ∨ data.length ≤ index then .error .arrayIndexOutOfBounds
  else .ok (data.getD index.toNat none)

/-- The assignment `data[index] = value`. -/
def store (data : List (Option object)) (index : Int) (value : Option object) :
    Except Failure (List (Option object)) :=
  if index < 0 ∨ data.length ≤ index then .error .arrayIndexOutOfBounds
  else .ok (data.set index.toNat value)

/-- `System.arraycopy` within the bounds of both arrays, which are one array or two. -/
def arraycopy (src : List (Option object)) (srcPos : Int) (dst : List (Option object))
    (dstPos length : Int) : Except Failure (List (Option object)) :=
  if srcPos < 0 ∨ dstPos < 0 ∨ length < 0 ∨ src.length < srcPos + length ∨
      dst.length < dstPos + length then
    .error .arrayIndexOutOfBounds
  else
    .ok (overwrite dst dstPos.toNat ((src.drop srcPos.toNat).take length.toNat))

/-- `new Object[length]`, of a length that is not negative. -/
def newArray (object : Type) (room : Int → Bool) (length : Int) :
    Except Failure (List (Option object)) :=
  if length ≤ maxArrayLength ∧ room length then .ok (List.replicate length.toNat none)
  else .error .outOfMemory

/-- A method: what it returns or throws, and the vector afterwards. -/
abbrev Method (object result : Type) := Vector object → Except Failure result × Vector object

/-- The constructor. -/
def new (object : Type) (room : Int → Bool) (initialCapacity capacityIncrement : Int) :
    Except Failure (Vector object) :=
  if initialCapacity < 0 then .error .illegalArgument
  else
    (newArray object room initialCapacity).map fun data =>
      { elementData := data, elementCount := 0, capacityIncrement := capacityIncrement }

/-! ## Capacity -/

/-- The length that `ensureCapacityHelper` asks for. -/
def newCapacity (vector : Vector object) (minCapacity : Int) : Int :=
  let oldCapacity : Int := vector.elementData.length
  let newCapacity :=
    if vector.capacityIncrement > 0 then signed (oldCapacity + vector.capacityIncrement)
    else signed (oldCapacity * 2)
  if newCapacity < minCapacity then minCapacity else newCapacity

/-- A new array with the elements of the old one. -/
def moveTo (room : Int → Bool) (capacity : Int) : Method object Unit := fun vector =>
  match newArray object room capacity with
  | .error failure => (.error failure, vector)
  | .ok data =>
      match arraycopy vector.elementData 0 data 0 vector.elementCount with
      | .error failure => (.error failure, { vector with elementData := data })
      | .ok data => (.ok (), { vector with elementData := data })

def ensureCapacityHelper (room : Int → Bool) (minCapacity : Int) : Method object Unit :=
  fun vector => moveTo room (newCapacity vector minCapacity) vector

def ensureCapacity (room : Int → Bool) (minCapacity : Int) : Method object Unit := fun vector =>
  if minCapacity > vector.elementData.length then ensureCapacityHelper room minCapacity vector
  else (.ok (), vector)

def trimToSize (room : Int → Bool) : Method object Unit := fun vector =>
  if vector.elementCount < vector.elementData.length then
    moveTo room vector.elementCount vector
  else
    (.ok (), vector)

/-- The loop of `setSize` and `removeAllElements`: null is stored so often, from an index on. -/
def clearFrom : Nat → Int → Method object Unit
  | 0, _, vector => (.ok (), vector)
  | left + 1, index, vector =>
      match store vector.elementData index none with
      | .error failure => (.error failure, vector)
      | .ok data => clearFrom left (index + 1) { vector with elementData := data }

def setSize (room : Int → Bool) (newSize : Int) : Method object Unit := fun vector =>
  let (outcome, vector) :=
    if newSize > vector.elementCount ∧ newSize > vector.elementData.length then
      ensureCapacityHelper room newSize vector
    else
      clearFrom (vector.elementCount - newSize).toNat newSize vector
  match outcome with
  | .error failure => (.error failure, vector)
  | .ok () => (.ok (), { vector with elementCount := newSize })

/-! ## Searching -/

variable (equals : object → Option object → Bool)

/-- `elem == null ? e == null : elem.equals(e)`. -/
def isElement (elem e : Option object) : Bool :=
  match elem with
  | none => e.isNone
  | some elem => equals elem e

/-- The loop of `indexOf`, for at most so many elements. -/
def searchUp (data : List (Option object)) (elem : Option object) :
    Nat → Int → Except Failure Int
  | 0, _ => .ok (-1)
  | left + 1, index =>
      match load data index with
      | .error failure => .error failure
      | .ok e =>
          if isElement equals elem e then .ok index else searchUp data elem left (index + 1)

/-- `indexOf`. -/
def indexOf (elem : Option object) (index : Int) : Method object Int := fun vector =>
  (searchUp equals vector.elementData elem (vector.elementCount - index).toNat index, vector)

/-- The loop of `lastIndexOf`. -/
def searchDown (data : List (Option object)) (elem : Option object) :
    Nat → Except Failure Int
  | 0 => .ok (-1)
  | left + 1 =>
      match load data left with
      | .error failure => .error failure
      | .ok e => if isElement equals elem e then .ok left else searchDown data elem left

/-- `lastIndexOf`. -/
def lastIndexOf (elem : Option object) (index : Int) : Method object Int := fun vector =>
  if index ≥ vector.elementCount then (.error .indexOutOfBounds, vector)
  else (searchDown equals vector.elementData elem (index + 1).toNat, vector)

/-! ## Elements -/

def elementAt (index : Int) : Method object (Option object) := fun vector =>
  if index ≥ vector.elementCount then (.error .arrayIndexOutOfBounds, vector)
  else (load vector.elementData index, vector)

def firstElement : Method object (Option object) := fun vector =>
  if vector.elementCount = 0 then (.error .noSuchElement, vector)
  else (load vector.elementData 0, vector)

def lastElement : Method object (Option object) := fun vector =>
  if vector.elementCount = 0 then (.error .noSuchElement, vector)
  else (load vector.elementData (vector.elementCount - 1), vector)

def setElementAt (obj : Option object) (index : Int) : Method object Unit := fun vector =>
  if index ≥ vector.elementCount then (.error .arrayIndexOutOfBounds, vector)
  else
    match store vector.elementData index obj with
    | .error failure => (.error failure, vector)
    | .ok data => (.ok (), { vector with elementData := data })

def removeElementAt (index : Int) : Method object Unit := fun vector =>
  if index ≥ vector.elementCount ∨ index < 0 then (.error .arrayIndexOutOfBounds, vector)
  else
    let j := vector.elementCount - index - 1
    let copied :=
      if j > 0 then arraycopy vector.elementData (index + 1) vector.elementData index j
      else .ok vector.elementData
    match copied with
    | .error failure => (.error failure, vector)
    | .ok data =>
        let vector := { vector with elementData := data, elementCount := vector.elementCount - 1 }
        -- the slot behind the last element is cleared for the collector
        match store data vector.elementCount none with
        | .error failure => (.error failure, vector)
        | .ok data => (.ok (), { vector with elementData := data })

/-- `if (newcount > elementData.length) ensureCapacityHelper(newcount)`. -/
def growFor (room : Int → Bool) (newcount : Int) : Method object Unit := fun vector =>
  if newcount > vector.elementData.length then ensureCapacityHelper room newcount vector
  else (.ok (), vector)

def insertElementAt (room : Int → Bool) (obj : Option object) (index : Int) :
    Method object Unit := fun vector =>
  let newcount := vector.elementCount + 1
  if index < 0 ∨ index ≥ newcount then (.error .arrayIndexOutOfBounds, vector)
  else
    match growFor room newcount vector with
    | (.error failure, vector) => (.error failure, vector)
    | (.ok (), vector) =>
        match arraycopy vector.elementData index vector.elementData (index + 1)
            (vector.elementCount - index) with
        | .error failure => (.error failure, vector)
        | .ok data =>
            match store data index obj with
            | .error failure => (.error failure, { vector with elementData := data })
            | .ok data =>
                (.ok (), { vector with
                  elementData := data
                  elementCount := vector.elementCount + 1 })

def addElement (room : Int → Bool) (obj : Option object) : Method object Unit := fun vector =>
  match growFor room (vector.elementCount + 1) vector with
  | (.error failure, vector) => (.error failure, vector)
  | (.ok (), vector) =>
      match store vector.elementData vector.elementCount obj with
      | .error failure =>
          (.error failure, { vector with elementCount := vector.elementCount + 1 })
      | .ok data =>
          (.ok (), { vector with
            elementData := data
            elementCount := vector.elementCount + 1 })

def removeElement (obj : Option object) : Method object Bool := fun vector =>
  match indexOf equals obj 0 vector with
  | (.error failure, vector) => (.error failure, vector)
  | (.ok i, vector) =>
      if i ≥ 0 then
        match removeElementAt i vector with
        | (.error failure, vector) => (.error failure, vector)
        | (.ok (), vector) => (.ok true, vector)
      else
        (.ok false, vector)

def removeAllElements : Method object Unit := fun vector =>
  match clearFrom vector.elementCount.toNat 0 vector with
  | (.error failure, vector) => (.error failure, vector)
  | (.ok (), vector) => (.ok (), { vector with elementCount := 0 })

/-- The loop of `copyInto`, from the last element. -/
def copyLoop (data : List (Option object)) :
    Nat → List (Option object) → Except Failure Unit × List (Option object)
  | 0, anArray => (.ok (), anArray)
  | left + 1, anArray =>
      match load data left with
      | .error failure => (.error failure, anArray)
      | .ok e =>
          match store anArray left e with
          | .error failure => (.error failure, anArray)
          | .ok anArray => copyLoop data left anArray

/-- `copyInto`, with the array it writes to. -/
def copyInto (anArray : List (Option object)) (vector : Vector object) :
    Except Failure Unit × List (Option object) :=
  copyLoop vector.elementData vector.elementCount.toNat anArray

/-- `contains`. -/
def contains (elem : Option object) : Method object Bool := fun vector =>
  match indexOf equals elem 0 vector with
  | (.error failure, vector) => (.error failure, vector)
  | (.ok i, vector) => (.ok (decide (i ≥ 0)), vector)

/-- `VectorEnumerator.nextElement`, with the enumerator's count. -/
def nextElement (count : Int) (vector : Vector object) : Except Failure (Option object) × Int :=
  if count < vector.elementCount then (load vector.elementData count, count + 1)
  else (.error .noSuchElement, count)

/-! ## Stack

`java.util.Stack`, which is a `Vector` with further methods.
-/

def push (room : Int → Bool) (item : Option object) : Method object (Option object) :=
  fun vector =>
    match addElement room item vector with
    | (.error failure, vector) => (.error failure, vector)
    | (.ok (), vector) => (.ok item, vector)

def peek : Method object (Option object) := fun vector =>
  if vector.elementCount = 0 then (.error .emptyStack, vector)
  else elementAt (vector.elementCount - 1) vector

def pop : Method object (Option object) := fun vector =>
  let len := vector.elementCount
  match peek vector with
  | (.error failure, vector) => (.error failure, vector)
  | (.ok obj, vector) =>
      match removeElementAt (len - 1) vector with
      | (.error failure, vector) => (.error failure, vector)
      | (.ok (), vector) => (.ok obj, vector)

def search (o : Option object) : Method object Int := fun vector =>
  match lastIndexOf equals o (vector.elementCount - 1) vector with
  | (.error failure, vector) => (.error failure, vector)
  | (.ok i, vector) => (.ok (if i ≥ 0 then vector.elementCount - i else -1), vector)

end Methods

end PicoJvm.Collections.Vectors
