import PicoJvm.Lib.Countdown
import PicoJvm.Text.BufferMethods

/-!
# Strings that share their characters with string buffers

Programs that make strings and string buffers and change the buffers. A string keeps its characters
while the buffer that it was made of is changed; and the characters of strings and buffers are those
that the documentation of the methods tells.
-/

namespace PicoJvm.Text

open PicoJvm.Lib PicoJvm.Lib.Attempt
open PicoJvm.Lib.Countdown (Follows)
open PicoJvm.Lib.Machine (signed signed_of_inRange)

/-! ## Programs -/

/-- An array of characters that a program passes to a method. -/
structure CharArray where
  chars : Chars
  length_le : chars.length ≤ 0x08000000

/-- The methods that change a string buffer. A string is the place of a string that was made before,
and null when there is none at the place. -/
inductive Change
  | append (str : Nat)
  | appendChars (str : Option CharArray)
  | appendPart (str : Option CharArray) (offset len : Int)
  | appendChar (c : UInt16)
  | delete (start finish : Int)
  | deleteCharAt (index : Int)
  | insert (offset : Int) (str : Nat)
  | insertChars (offset : Int) (str : Option CharArray)
  | insertChar (offset : Int) (c : UInt16)
  | setLength (newLength : Int)
  | setCharAt (index : Int) (ch : UInt16)
  | reverse
  | ensureCapacity (minimumCapacity : Int)

/-- What a program may do with strings and string buffers. -/
inductive Call
  | newString (value : Option CharArray)
  | substring (string : Nat) (beginIndex endIndex : Int)
  | concat (string str : Nat)
  | newBuffer (length : Int)
  | newBufferOf (str : Nat)
  | changeBuffer (buffer : Nat) (change : Change)
  | toString (buffer : Nat)

/-- The strings and the string buffers of a program, in the order in which it got them. -/
structure World where
  heap : Heap
  strings : List JavaString
  buffers : List StringBuffer

/-- The characters of the literal that stands for a null string. -/
def nullText : Chars := [110, 117, 108, 108]

/-- Where a program starts: with the literal. -/
def World.start : World where
  heap := Heap.mk (Function.update (fun _ => []) 0 nullText) 1
  strings := [JavaString.mk 0 0 4]
  buffers := []

/-- The string that is appended for the one at a place. -/
def World.string (world : World) (place : Nat) : JavaString :=
  world.strings.getD place (world.strings.headD (JavaString.mk 0 0 4))

/-- Ends with an exception when a reference is null. -/
def nonNull {referred state : Type} : Option referred → EStateM Throwable state referred
  | none => throw .nullPointer
  | some referred => return referred

/-- A method of a string buffer, with its arguments. -/
def Change.method (memory : Memory) (string : Nat → JavaString) : Change → Method Unit
  | .append str => Text.append memory (string str)
  | .appendChars str => do Text.appendChars memory (← nonNull str).chars
  | .appendPart none _ len => do
      Text.ensureCapacity memory (signed ((← get).this.count + len))
      throw .nullPointer
  | .appendPart (some str) offset len => Text.appendPart memory str.chars offset len
  | .appendChar c => Text.appendChar memory c
  | .delete start finish => Text.delete memory start finish
  | .deleteCharAt index => Text.deleteCharAt memory index
  | .insert offset str => Text.insert memory offset (string str)
  | .insertChars offset none => do
      if offset < 0 ∨ (← get).this.count < offset then
        throw .stringIndexOutOfBounds
      else
        throw .nullPointer
  | .insertChars offset (some str) => Text.insertChars memory offset str.chars
  | .insertChar offset c => Text.insertChar memory offset c
  | .setLength newLength => Text.setLength memory newLength
  | .setCharAt index ch => Text.setCharAt memory index ch
  | .reverse => Text.reverse memory
  | .ensureCapacity minimumCapacity => Text.ensureCapacity memory minimumCapacity

/-- Works on the arrays of a program. -/
def onArrays {result : Type} (attempt : EStateM Throwable Heap result) :
    EStateM Throwable World result := fun world =>
  match attempt world.heap with
  | .ok value heap => .ok value { world with heap := heap }
  | .error thrown heap => .error thrown { world with heap := heap }

/-- The world after a method of the buffer at a place. -/
def World.withStore (world : World) (place : Nat) (store : Store) : World :=
  { world with heap := store.heap, buffers := world.buffers.set place store.this }

/-- Calls a method of the buffer at a place. -/
def onBuffer {result : Type} (place : Nat) (method : Method result) :
    EStateM Throwable World result := do
  let this ← nonNull (← get).buffers[place]?
  fun world =>
    match method (Store.mk world.heap this) with
    | .ok value store => .ok value (world.withStore place store)
    | .error thrown store => .error thrown (world.withStore place store)

def World.addString (world : World) (string : JavaString) : World :=
  { world with strings := world.strings ++ [string] }

def World.addBuffer (world : World) (this : StringBuffer) : World :=
  { world with buffers := world.buffers ++ [this] }

/-- Runs the constructor of a buffer, which the program has when the constructor returns. -/
def construct (this : StringBuffer) (method : Method Unit) : EStateM Throwable World Unit :=
  fun world =>
    match method (Store.mk world.heap this) with
    | .ok _ store => .ok ⟨⟩ (World.addBuffer { world with heap := store.heap } store.this)
    | .error thrown store => .error thrown { world with heap := store.heap }

/-- A call, with what can be allocated meanwhile. -/
def Call.invoke (memory : Memory) : Call → EStateM Throwable World Unit
  | .newString value => do
      onArrays (newObject memory)
      let string ← onArrays (stringOf memory (← nonNull value).chars)
      modify (World.addString · string)
  | .substring string beginIndex endIndex => do
      let string ← nonNull (← get).strings[string]?
      let string ← onArrays (string.substring memory beginIndex endIndex)
      modify (World.addString · string)
  | .concat string str => do
      let string ← nonNull (← get).strings[string]?
      let str ← nonNull (← get).strings[str]?
      let string ← onArrays (string.concat memory str)
      modify (World.addString · string)
  | .newBuffer length => do
      onArrays (newObject memory)
      let value ← onArrays (newCharArray memory length)
      construct (StringBuffer.mk value 0 false) (return ⟨⟩)
  | .newBufferOf str => do
      onArrays (newObject memory)
      let str ← nonNull (← get).strings[str]?
      let value ← onArrays (newCharArray memory (signed (str.count + 16)))
      construct (StringBuffer.mk value 0 false) (append memory str)
  | .changeBuffer buffer change => do
      onBuffer buffer (change.method memory (← get).string)
  | .toString buffer => do
      let string ← onBuffer buffer (Text.toString memory)
      modify (World.addString · string)

/-! ## The characters of a program's strings and buffers -/

/-- What a program means: the characters of its strings and of its buffers. -/
structure Contents where
  strings : List Chars
  buffers : List Chars

/-- The characters of the string at a place, and those of the literal when there is none. -/
def Contents.text (contents : Contents) (place : Nat) : Chars :=
  contents.strings.getD place nullText

/-- The characters of an array. -/
def arrayText (str : Option CharArray) : Chars :=
  str.elim [] CharArray.chars

/-- What a method makes of the characters of a buffer. -/
def Change.content (text : Nat → Chars) (content : Chars) : Change → Chars
  | .append str => content ++ text str
  | .appendChars str => content ++ arrayText str
  | .appendPart str offset len => content ++ ((arrayText str).drop offset.toNat).take len.toNat
  | .appendChar c => content ++ [c]
  | .delete start finish => content.take start.toNat ++ content.drop finish.toNat
  | .deleteCharAt index => content.eraseIdx index.toNat
  | .insert offset str => content.take offset.toNat ++ text str ++ content.drop offset.toNat
  | .insertChars offset str =>
      content.take offset.toNat ++ arrayText str ++ content.drop offset.toNat
  | .insertChar offset c => content.take offset.toNat ++ [c] ++ content.drop offset.toNat
  | .setLength newLength =>
      content.take newLength.toNat ++ List.replicate (newLength.toNat - content.length) 0
  | .setCharAt index ch => content.set index.toNat ch
  | .reverse => content.reverse
  | .ensureCapacity _ => content

/-- What a call that returns makes of the characters. -/
def Contents.after (contents : Contents) : Call → Contents
  | .newString value => { contents with strings := contents.strings ++ [arrayText value] }
  | .substring string beginIndex endIndex =>
      { contents with
        strings := contents.strings ++
          [((contents.text string).drop beginIndex.toNat).take (endIndex - beginIndex).toNat] }
  | .concat string str =>
      { contents with
        strings := contents.strings ++ [contents.text string ++ contents.text str] }
  | .newBuffer _ => { contents with buffers := contents.buffers ++ [[]] }
  | .newBufferOf str => { contents with buffers := contents.buffers ++ [contents.text str] }
  | .changeBuffer buffer change =>
      { contents with
        buffers := contents.buffers.set buffer
          (change.content contents.text (contents.buffers.getD buffer [])) }
  | .toString buffer =>
      { contents with strings := contents.strings ++ [contents.buffers.getD buffer []] }

/-- The characters that a world holds. -/
def World.contents (world : World) : Contents where
  strings := world.strings.map fun string => string.chars world.heap
  buffers := world.buffers.map fun this => (Store.mk world.heap this).content

/-! ## Worlds in which strings are safe -/

/-- The characters of a string are in an array of the heap. -/
structure JavaString.Allocated (string : JavaString) (heap : Heap) : Prop where
  allocated : string.value < heap.next
  inside : string.offset + string.count ≤ (heap.arrays string.value).length
  short : string.count ≤ 0x08000000

/-- A buffer with the array of a string shares it, and does not have fewer characters. -/
def StringBuffer.Spares (this : StringBuffer) (string : JavaString) : Prop :=
  string.value = this.value → this.shared = true ∧ string.offset + string.count ≤ this.count

/-- What holds between calls. -/
structure World.Valid (world : World) : Prop where
  literal : world.contents.strings.head? = some nullText
  strings : ∀ string ∈ world.strings, string.Allocated world.heap
  buffers : ∀ this ∈ world.buffers, (Store.mk world.heap this).Valid
  spares : ∀ this ∈ world.buffers, ∀ string ∈ world.strings, this.Spares string
  distinct : ∀ (place place' : Nat) (this this' : StringBuffer),
    world.buffers[place]? = some this →
    world.buffers[place']? = some this' → this.value = this'.value → place = place'

theorem World.Valid.guarded
    {world : World} {this : StringBuffer} {string : JavaString}
    (valid : world.Valid)
    (isBuffer : this ∈ world.buffers)
    (isString : string ∈ world.strings) :
    Guarded string (Store.mk world.heap this) where
  allocated := (valid.strings string isString).allocated
  inside := (valid.strings string isString).inside
  sharing := valid.spares this isBuffer string isString

theorem World.start_valid : World.start.Valid where
  literal := rfl
  strings := by
    intro string isString
    rw [List.mem_singleton.mp isString]
    exact ⟨by decide, by decide, by decide⟩
  buffers := by
    intro this isBuffer
    cases isBuffer
  spares := by
    intro this isBuffer
    cases isBuffer
  distinct := by
    intro place place' this this' found
    cases found

/-- The arrays that there were are as they were. -/
structure Heap.Extends (before after : Heap) : Prop where
  next_le : before.next ≤ after.next
  same : ∀ array < before.next, after.arrays array = before.arrays array

theorem Heap.Extends.chars_eq
    {before after : Heap} {string : JavaString}
    (extended : before.Extends after)
    (allocated : string.Allocated before) :
    string.chars after = string.chars before := by
  rw [JavaString.chars, JavaString.chars, extended.same _ allocated.allocated]

theorem JavaString.Allocated.extend
    {before after : Heap} {string : JavaString}
    (allocated : string.Allocated before)
    (extended : before.Extends after) :
    string.Allocated after where
  allocated := allocated.allocated.trans_le extended.next_le
  inside := by
    rw [extended.same _ allocated.allocated]
    exact allocated.inside
  short := allocated.short

theorem Heap.Extends.value_eq
    {before after : Heap} {this : StringBuffer}
    (extended : before.Extends after)
    (valid : (Store.mk before this).Valid) :
    (Store.mk after this).value = (Store.mk before this).value :=
  extended.same this.value valid.owned

theorem Store.Valid.extend
    {before after : Heap} {this : StringBuffer}
    (valid : (Store.mk before this).Valid)
    (extended : before.Extends after) :
    (Store.mk after this).Valid where
  owned := valid.owned.trans_le extended.next_le
  count_le := by
    rw [extended.value_eq valid]
    exact valid.count_le
  short := by
    rw [extended.value_eq valid]
    exact valid.short

/-- New arrays. -/
theorem World.Valid.extend
    {world : World} {heap : Heap}
    (valid : world.Valid)
    (extended : world.heap.Extends heap) :
    World.Valid { world with heap := heap } ∧
      World.contents { world with heap := heap } = world.contents := by
  have same : World.contents { world with heap := heap } = world.contents := by
    simp only [World.contents, Contents.mk.injEq]
    constructor
    · apply List.map_congr_left
      intro string isString
      exact extended.chars_eq (valid.strings string isString)
    · apply List.map_congr_left
      intro this isBuffer
      rw [Store.content, Store.content, extended.value_eq (valid.buffers this isBuffer)]
  refine ⟨⟨?_, ?_, ?_, valid.spares, valid.distinct⟩, same⟩
  · rw [same]
    exact valid.literal
  · intro string isString
    exact (valid.strings string isString).extend extended
  · intro this isBuffer
    exact (valid.buffers this isBuffer).extend extended

/-- A new string. -/
theorem World.Valid.addString
    {world : World} {string : JavaString}
    (valid : world.Valid)
    (allocated : string.Allocated world.heap)
    (spares : ∀ this ∈ world.buffers, this.Spares string) :
    (world.addString string).Valid ∧
      (world.addString string).contents =
        { world.contents with
          strings := world.contents.strings ++ [string.chars world.heap] } := by
  have contents : (world.addString string).contents =
      { world.contents with strings := world.contents.strings ++ [string.chars world.heap] } := by
    simp only [World.contents, World.addString, List.map_append, List.map_cons, List.map_nil]
  refine ⟨⟨?_, ?_, valid.buffers, ?_, valid.distinct⟩, contents⟩
  · rw [contents, List.head?_append, valid.literal]
    rfl
  · intro string' isString
    rcases List.mem_append.mp isString with old | new
    · exact valid.strings string' old
    · rw [List.mem_singleton.mp new]
      exact allocated
  · intro this isBuffer string' isString
    rcases List.mem_append.mp isString with old | new
    · exact valid.spares this isBuffer string' old
    · rw [List.mem_singleton.mp new]
      exact spares this isBuffer

/-- A new buffer, with an array of its own. -/
theorem World.Valid.addBuffer
    {world : World} {this : StringBuffer}
    (valid : world.Valid)
    (thisValid : (Store.mk world.heap this).Valid)
    (spares : ∀ string ∈ world.strings, this.Spares string)
    (own : ∀ this' ∈ world.buffers, this'.value ≠ this.value) :
    (world.addBuffer this).Valid ∧
      (world.addBuffer this).contents =
        { world.contents with
          buffers := world.contents.buffers ++ [(Store.mk world.heap this).content] } := by
  have split {place : Nat} {this' : StringBuffer}
      (found : (world.addBuffer this).buffers[place]? = some this') :
      world.buffers[place]? = some this' ∨ place = world.buffers.length ∧ this' = this := by
    rw [World.addBuffer, List.getElem?_append] at found
    split at found
    · exact .inl found
    · have inSingle := List.getElem?_eq_some_iff.mp found
      obtain ⟨small, isThis⟩ := inSingle
      rw [List.length_singleton] at small
      refine .inr ⟨by omega, ?_⟩
      rw [List.getElem_singleton] at isThis
      exact isThis.symm
  refine ⟨⟨valid.literal, valid.strings, ?_, ?_, ?_⟩, ?_⟩
  · intro this' isBuffer
    rcases List.mem_append.mp isBuffer with old | new
    · exact valid.buffers this' old
    · rw [List.mem_singleton.mp new]
      exact thisValid
  · intro this' isBuffer string isString
    rcases List.mem_append.mp isBuffer with old | new
    · exact valid.spares this' old string isString
    · rw [List.mem_singleton.mp new]
      exact spares string isString
  · intro place place' first second foundFirst foundSecond sameValue
    rcases split foundFirst with oldFirst | newFirst
    · rcases split foundSecond with oldSecond | newSecond
      · exact valid.distinct place place' first second oldFirst oldSecond sameValue
      · rw [newSecond.2] at sameValue
        exact absurd sameValue (own first (List.mem_of_getElem? oldFirst))
    · rcases split foundSecond with oldSecond | newSecond
      · rw [newFirst.2] at sameValue
        exact absurd sameValue.symm (own second (List.mem_of_getElem? oldSecond))
      · exact newFirst.1.trans newSecond.1.symm
  · simp only [World.contents, World.addBuffer, List.map_append, List.map_cons, List.map_nil]

/-! ## Changing one buffer -/

/-- Arrays of other buffers stay as they are. -/
theorem Frame.arrays_eq
    {before after : Store} {array : Nat}
    (frame : Frame before after)
    (allocated : array < before.heap.next)
    (other : array ≠ before.this.value) :
    after.heap.arrays array = before.heap.arrays array := by
  have long := frame.kept array allocated
    (max (after.heap.arrays array).length (before.heap.arrays array).length)
    fun isValue => absurd isValue other
  rwa [List.take_of_length_le (le_max_left _ _), List.take_of_length_le (le_max_right _ _)] at long

theorem Frame.other_valid
    {before after : Store} {this : StringBuffer}
    (frame : Frame before after)
    (valid : (Store.mk before.heap this).Valid)
    (other : this.value ≠ before.this.value) :
    (Store.mk after.heap this).Valid ∧
      (Store.mk after.heap this).content = (Store.mk before.heap this).content := by
  have same : (Store.mk after.heap this).value = (Store.mk before.heap this).value :=
    frame.arrays_eq valid.owned other
  refine ⟨⟨valid.owned.trans_le frame.next_le, ?_, ?_⟩, ?_⟩
  · rw [same]
    exact valid.count_le
  · rw [same]
    exact valid.short
  · rw [Store.content, Store.content, same]

theorem Guarded.allocated_after
    {before after : Store} {string : JavaString}
    (guarded : Guarded string before)
    (frame : Frame before after)
    (short : string.count ≤ 0x08000000) :
    string.Allocated after.heap where
  allocated := (guarded.after frame).allocated
  inside := (guarded.after frame).inside
  short := short

/-- A method of a buffer keeps the strings, and changes the characters of its buffer only. -/
theorem World.Valid.withStore
    {world : World} {place : Nat} {this : StringBuffer} {after : Store} {content : Chars}
    (valid : world.Valid)
    (found : world.buffers[place]? = some this)
    (leaves : Leaves (Store.mk world.heap this) content after) :
    (world.withStore place after).Valid ∧
      (world.withStore place after).contents =
        { world.contents with buffers := world.contents.buffers.set place content } := by
  have isBuffer := List.mem_of_getElem? found
  have inside := (List.getElem?_eq_some_iff.mp found).1
  have split {place' : Nat} {this' : StringBuffer}
      (found' : (world.withStore place after).buffers[place']? = some this') :
      place' = place ∧ this' = after.this ∨
        place' ≠ place ∧ world.buffers[place']? = some this' ∧ this'.value ≠ this.value := by
    rw [World.withStore, List.getElem?_set] at found'
    by_cases same : place = place'
    · rw [if_pos same, if_pos inside] at found'
      exact .inl ⟨same.symm, (Option.some.inj found').symm⟩
    · rw [if_neg same] at found'
      refine .inr ⟨Ne.symm same, found', fun sameValue => same ?_⟩
      exact (valid.distinct place' place this' this found' found sameValue).symm
  have contents : (world.withStore place after).contents =
      { world.contents with buffers := world.contents.buffers.set place content } := by
    simp only [World.contents, World.withStore, Contents.mk.injEq]
    constructor
    · apply List.map_congr_left
      intro string isString
      exact leaves.frame.chars_eq (valid.guarded isBuffer isString)
    · apply List.ext_getElem?
      intro place'
      rw [List.getElem?_map, List.getElem?_set, List.getElem?_set, List.getElem?_map,
        List.length_map]
      by_cases same : place = place'
      · rw [if_pos same, if_pos same, if_pos (by omega), if_pos (by omega), Option.map_some]
        exact congrArg some leaves.content_eq
      · rw [if_neg same, if_neg same]
        cases found' : world.buffers[place']? with
        | none =>
            rfl
        | some this' =>
            have other : this'.value ≠ this.value := fun sameValue =>
              same (valid.distinct place' place this' this found' found sameValue).symm
            have thisValid := valid.buffers this' (List.mem_of_getElem? found')
            exact congrArg some (leaves.frame.other_valid thisValid other).2
  refine ⟨⟨?_, ?_, ?_, ?_, ?_⟩, contents⟩
  · rw [contents]
    exact valid.literal
  · intro string isString
    exact (valid.guarded isBuffer isString).allocated_after leaves.frame
      (valid.strings string isString).short
  · intro this' isBuffer'
    obtain ⟨place', found'⟩ := List.getElem?_of_mem isBuffer'
    rcases split found' with new | old
    · rw [new.2]
      exact leaves.valid
    · have thisValid := valid.buffers this' (List.mem_of_getElem? old.2.1)
      exact (leaves.frame.other_valid thisValid old.2.2).1
  · intro this' isBuffer' string isString
    obtain ⟨place', found'⟩ := List.getElem?_of_mem isBuffer'
    rcases split found' with new | old
    · rw [new.2]
      exact ((valid.guarded isBuffer isString).after leaves.frame).sharing
    · exact valid.spares this' (List.mem_of_getElem? old.2.1) string isString
  · intro first second this' this'' foundFirst foundSecond sameValue
    have fresh {this' : StringBuffer} {place' : Nat}
        (found' : world.buffers[place']? = some this')
        (other : this'.value ≠ this.value) : this'.value ≠ after.this.value := by
      have owned := (valid.buffers this' (List.mem_of_getElem? found')).owned
      rcases leaves.frame.owner with kept | new
      · rw [kept.1]
        exact other
      · exact (owned.trans_le new).ne
    rcases split foundFirst with newFirst | oldFirst
    · rcases split foundSecond with newSecond | oldSecond
      · exact newFirst.1.trans newSecond.1.symm
      · rw [newFirst.2] at sameValue
        exact absurd sameValue.symm (fresh oldSecond.2.1 oldSecond.2.2)
    · rcases split foundSecond with newSecond | oldSecond
      · rw [newSecond.2] at sameValue
        exact absurd sameValue (fresh oldFirst.2.1 oldFirst.2.2)
      · exact valid.distinct first second this' this'' oldFirst.2.1 oldSecond.2.1 sameValue

end PicoJvm.Text
