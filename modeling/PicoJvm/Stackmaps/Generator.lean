import PicoJvm.Verifier.Instruction

/-!
# `StackmapGenerator`

The garbage collector finds the references of a frame by interpreting the bytecodes from the
nearest stack map on. The interpreter is written over any type of words, so that the same
definition runs on `StackMapKind`s and on the marks that are made of them.
-/

namespace PicoJvm.Stackmaps

open PicoJvm.Verifier (Instruction Kind PrimitiveType Tag)

/-! ## What the generator interprets -/

/-- A call of the closure after the bytecodes have been quickened. -/
inductive Operation
  | plain (instruction : Instruction)
  | popAndNpeIfNull
  | initStaticArray
  | fastGetField (type : Kind)
  | fastPutField (type : Kind)
  | aload0FastGetField (type : Kind)
  | fastInvoke (index : Nat)
  | invokeNative (returnType : Option Kind)
  | uncommonTrap
  deriving DecidableEq, Repr

/-- What the generator reads of a method. -/
structure Method where
  codeSize : Nat
  maxLocals : Nat
  maxExecutionStackCount : Nat
  /-- The types `SignatureStream` goes through, the receiver among them. -/
  parameters : List Kind
  /-- The call that `iterate_bytecode` makes at a bytecode index. -/
  operationAt : Nat → Operation
  nextBci : Nat → Nat
  lt_nextBci : ∀ bci, bci < nextBci bci
  /-- The type of the field at a constant-pool index. -/
  fieldType : Nat → Kind
  /-- The words of the parameters of the method at a constant-pool index, and its return type. -/
  invoked : Nat → Nat × Option Kind

/-- The tags of a value, top first. -/
def tagsOf : Kind → List Tag
  | .primitive type => type.tags
  | .object => [.object]

/-- The tags of a value that may be `void`. -/
def returnTags : Option Kind → List Tag
  | none => []
  | some kind => tagsOf kind

/-! ## The stack -/

section Stack

variable {α : Type}

/-- `pop(slots)`, with its check. -/
def pop (slots : Nat) (stack : List α) : Option (List α) :=
  if slots ≤ stack.length then some (stack.drop slots) else none

variable (of : Tag → α)

/-- `push(type)`. -/
def push (tags : List Tag) (stack : List α) : List α :=
  tags.map of ++ stack

/-- Pops some words and pushes others. -/
def replace (slots : Nat) (tags : List Tag) (stack : List α) : Option (List α) :=
  (pop slots stack).map (push of tags)

/-- `interpret_field_ops`. -/
def interpretFieldOps (type : Kind) (isPut isStatic : Bool) (stack : List α) :
    Option (List α) :=
  if isPut then
    pop (type.words + if isStatic then 0 else 1) stack
  else
    replace of (if isStatic then 0 else 1) (tagsOf type) stack

/-- `interpret_invoke_ops` and `interpret_unresolved_invoke_ops`. -/
def interpretInvokeOps (method : Method) (index : Nat) (stack : List α) : Option (List α) :=
  replace of (method.invoked index).1 (returnTags (method.invoked index).2) stack

/-- What an instruction of a class file does to the stack. -/
def instructionStack (method : Method) (stack : List α) : Instruction → Option (List α)
  | .pushInt => some (push of PrimitiveType.int.tags stack)
  | .pushLong => some (push of PrimitiveType.long.tags stack)
  | .pushFloat => some (push of PrimitiveType.float.tags stack)
  | .pushDouble => some (push of PrimitiveType.double.tags stack)
  | .pushObj _ => some (push of (tagsOf .object) stack)
  | .loadLocal kind _ => some (push of (tagsOf kind) stack)
  | .storeLocal kind _ => pop kind.words stack
  | .incrementLocalInt _ => some stack
  | .arrayLength => replace of 1 PrimitiveType.int.tags stack
  | .loadArray kind => replace of 2 (tagsOf kind) stack
  | .storeArray kind => pop (kind.words + 2) stack
  | .nop => some stack
  | .pop => pop 1 stack
  | .pop2 => pop 2 stack
  | .dup =>
      match stack with
      | kind1 :: rest => some (kind1 :: kind1 :: rest)
      | _ => none
  | .dup2 =>
      match stack with
      | kind1 :: kind2 :: rest => some (kind1 :: kind2 :: kind1 :: kind2 :: rest)
      | _ => none
  | .dupX1 =>
      match stack with
      | kind1 :: kind2 :: rest => some (kind1 :: kind2 :: kind1 :: rest)
      | _ => none
  | .dup2X1 =>
      match stack with
      | kind1 :: kind2 :: kind3 :: rest => some (kind1 :: kind2 :: kind3 :: kind1 :: kind2 :: rest)
      | _ => none
  | .dupX2 =>
      match stack with
      | kind1 :: kind2 :: kind3 :: rest => some (kind1 :: kind2 :: kind3 :: kind1 :: rest)
      | _ => none
  | .dup2X2 =>
      match stack with
      | kind1 :: kind2 :: kind3 :: kind4 :: rest =>
          some (kind1 :: kind2 :: kind3 :: kind4 :: kind1 :: kind2 :: rest)
      | _ => none
  | .swap =>
      match stack with
      | kind1 :: kind2 :: rest => some (kind2 :: kind1 :: rest)
      | _ => none
  | .neg _ => some stack
  | .binary _ .shift => pop 1 stack
  | .binary type .other => pop type.words stack
  | .convert source target => replace of source.words target.tags stack
  | .branchIf _ _ => pop 1 stack
  | .branchIfIcmp _ => pop 2 stack
  | .branchIfAcmp _ => pop 2 stack
  | .compare type => replace of (type.words + type.words) PrimitiveType.int.tags stack
  | .branch _ => none
  | .returnOp _ => none
  | .tableSwitch _ _ => none
  | .lookupSwitch _ _ => none
  | .getField index => interpretFieldOps of (method.fieldType index) false false stack
  | .putField index => interpretFieldOps of (method.fieldType index) true false stack
  | .getStatic index => interpretFieldOps of (method.fieldType index) false true stack
  | .putStatic index => interpretFieldOps of (method.fieldType index) true true stack
  | .invokeInterface index _ _ => interpretInvokeOps of method index stack
  | .invokeSpecial index => interpretInvokeOps of method index stack
  | .invokeStatic index => interpretInvokeOps of method index stack
  | .invokeVirtual index => interpretInvokeOps of method index stack
  | .throwException => none
  | .newObject _ => some (push of (tagsOf .object) stack)
  | .newBasicArray _ => replace of 1 (tagsOf .object) stack
  | .newObjectArray _ => replace of 1 (tagsOf .object) stack
  | .newMultiArray _ dims => replace of dims (tagsOf .object) stack
  | .checkCast _ => some stack
  | .instanceOf _ => replace of 1 PrimitiveType.int.tags stack
  | .monitorEnter => pop 1 stack
  | .monitorExit => pop 1 stack
  | .illegalCode => none

/-- What a call of the closure does to the stack; nothing after a call that does not come back to
the next bytecode, where the checker aborts. -/
def operationStack (method : Method) (stack : List α) : Operation → Option (List α)
  | .plain instruction => instructionStack of method stack instruction
  | .popAndNpeIfNull => pop 1 stack
  | .initStaticArray => some stack
  | .fastGetField type => replace of 1 (tagsOf type) stack
  | .fastPutField type => pop (type.words + 1) stack
  | .aload0FastGetField type => replace of 1 (tagsOf type) (push of (tagsOf .object) stack)
  | .fastInvoke index => interpretInvokeOps of method index stack
  | .invokeNative _ => none
  | .uncommonTrap => none

end Stack

/-! ## The locals -/

/-- Tags at consecutive indexes. -/
def writeTags : List Tag → Nat → List Tag → List Tag
  | [], _, locals => locals
  | tag :: tags, index, locals => writeTags tags (index + 1) (locals.set index tag)

/-- The first word of a `long` or a `double`. -/
def opensTwoWords : Tag → Bool
  | .long | .double => true
  | _ => false

/-- The second word of a `long` or a `double`. -/
def closesTwoWords : Tag → Bool
  | .long2 | .double2 => true
  | _ => false

/-- A test of the tag of a local. -/
def testLocal (test : Tag → Bool) (locals : List Tag) (index : Nat) : Bool :=
  (locals[index]?.map test).getD false

/-- What `store_local` does when the word before is the first of two. -/
def spoilBehindOpen (index : Nat) (locals : List Tag) : List Tag :=
  if 0 < index ∧ testLocal opensTwoWords locals (index - 1) then
    locals.set index .bogus
  else
    locals

/-- What `store_local` does when the next word is the second of two. -/
def spoilClosed (next : Nat) (locals : List Tag) : List Tag :=
  if testLocal closesTwoWords locals next then
    locals.set next .bogus
  else
    locals

/-- The locals after `store_local`. -/
def storeLocal (kind : Kind) (index : Nat) (locals : List Tag) : List Tag :=
  spoilClosed (index + kind.words)
    (spoilBehindOpen index (writeTags (tagsOf kind).reverse index locals))

/-! ## Frames -/

/-- `_gc_stackmap` up to `_abstract_tos`; the stack has its top first. -/
structure Frame where
  locals : List Tag
  stack : List Tag
  deriving DecidableEq, Repr

/-- One bytecode. -/
def interpretOperation (method : Method) (operation : Operation) (frame : Frame) : Option Frame :=
  match operation with
  | .plain (.storeLocal kind index) =>
      if index + kind.words ≤ frame.locals.length then
        (pop kind.words frame.stack).map fun stack =>
          { locals := storeLocal kind index frame.locals, stack }
      else
        none
  | operation =>
      (operationStack id method frame.stack operation).map fun stack => { frame with stack }

/-- The loop up to the bytecode index of the collection. -/
def interpret (method : Method) (gcBci : Nat) : Nat → Nat → Frame → Option Frame
  | 0, bci, frame => if gcBci ≤ bci then some frame else none
  | fuel + 1, bci, frame =>
      if gcBci ≤ bci then
        some frame
      else if method.nextBci bci ≤ gcBci then
        (interpretOperation method (method.operationAt bci) frame).bind
          (interpret method gcBci fuel (method.nextBci bci))
      else
        none

/-- `convert_to_stackmaptag` for all words, in the order of the array. -/
def Frame.marks (frame : Frame) : List Bool :=
  frame.locals.map Tag.isReference ++ (frame.stack.map Tag.isReference).reverse

/-! ## Compressed stack maps -/

/-- The bits of an entry of a `StackmapList`. -/
inductive Bitmap
  | short (bitmap : Nat)
  | long (words : List Nat)
  deriving DecidableEq, Repr

def Bitmap.bit (bitmap : Bitmap) (index : Nat) : Bool :=
  match bitmap with
  | .short bitmap => bitmap.testBit index
  | .long words => (words.getD (index / 16) 0).testBit (index % 16)

/-- An entry of a `StackmapList`. -/
structure Stackmap where
  bci : Nat
  locals : Nat
  stackHeight : Nat
  bitmap : Bitmap
  deriving DecidableEq, Repr

/-- `read_bitmap_internal`. -/
def readBitmap (bitmap : Bitmap) (offset count : Nat) : List Tag :=
  (List.range count).map fun place =>
    if bitmap.bit (offset + place) then .object else .integer

/-- A place to begin the interpretation. -/
structure Start where
  bci : Nat
  frame : Frame
  deriving DecidableEq, Repr

/-- The start of the method. -/
def methodStart (method : Method) : Start :=
  let parameters := method.parameters.flatMap fun kind => (tagsOf kind).reverse
  { bci := 0
    frame :=
      { locals :=
          parameters ++ List.replicate (method.maxLocals - parameters.length) .bogus
        stack := [] } }

/-- `read_short_map` and `read_long_map`. -/
def readMap (method : Method) (map : Stackmap) : Start :=
  { bci := map.bci
    frame :=
      { locals :=
          readBitmap map.bitmap 0 map.locals ++
            List.replicate (method.maxLocals - map.locals) .bogus
        stack := (readBitmap map.bitmap map.locals map.stackHeight).reverse } }

/-- `find_compressed_stackmap`. -/
def findCompressedStackmap (maps : List Stackmap) (gcBci : Nat) : Option Nat :=
  match maps.getLast? with
  | none => none
  | some last =>
      if last.bci ≤ gcBci then
        some (maps.length - 1)
      else
        match maps.findIdx? fun map => decide (gcBci < map.bci) with
        | none | some 0 => none
        | some (index + 1) => some index

/-- The place where `generate_stackmap` begins. The checker begins one map earlier. -/
def startFor (method : Method) (maps : List Stackmap) (checking : Bool) (gcBci : Nat) : Start :=
  let index := findCompressedStackmap maps gcBci
  let index :=
    if checking then
      match index with
      | none | some 0 => none
      | some (index + 1) => some index
    else
      index
  match index.bind (maps[·]?) with
  | none => methodStart method
  | some map => readMap method map

/-- `generate_stackmap`; nothing when the checker aborts. -/
def generateStackmap (method : Method) (maps : List Stackmap) (checking : Bool) (gcBci : Nat) :
    Option (List Bool) :=
  let start := startFor method maps checking gcBci
  (interpret method gcBci (gcBci - start.bci) start.bci start.frame).map Frame.marks

/-! ## Redundant stack maps -/

/-- `StackmapChecker::is_redundant`. -/
def isRedundant (method : Method) (maps : List Stackmap) (index : Nat) : Bool :=
  if 1000 < method.maxExecutionStackCount then
    false
  else
    match maps[index]? with
    | none => false
    | some map =>
        match generateStackmap method maps true map.bci with
        | none => false
        | some temp =>
            match generateStackmap method maps false map.bci with
            | none => false
            | some marks =>
                (List.range temp.length).all fun place => decide (temp[place]? = marks[place]?)

/-- `ROMOptimizer::remove_redundant_stackmaps`. -/
def removeRedundantStackmaps (method : Method) (maps : List Stackmap) : List Stackmap :=
  ((List.range maps.length).filter fun index => !isRedundant method maps index).filterMap
    (maps[·]?)

end PicoJvm.Stackmaps
