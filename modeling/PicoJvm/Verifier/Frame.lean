import PicoJvm.Lib.Fallible
import PicoJvm.Verifier.Types

/-!
# `VerifierFrame`

The type state of the verifier: the tags and classes of the locals and of the
expression stack, and the operations on them. The stack is kept top first; what
the source leaves above the stack pointer is never read again and is dropped.
-/

namespace PicoJvm.Verifier

/-- `VerifierFrame`. The locals have length `max_locals`. -/
structure Frame where
  maxStack : Nat
  locals : List Slot
  stack : List Slot
  needInitialization : Bool
  deriving DecidableEq, Repr

namespace Frame

/-! ## The stack -/

/-- `push_category1`, which is also `push` and `push_object`. -/
def push (frame : Frame) (slot : Slot) : Check Frame :=
  if frame.stack.length < frame.maxStack then
    .ok { frame with stack := slot :: frame.stack }
  else
    .error .stackOverflow

/-- `push_category2`. -/
def push2 (frame : Frame) (first second : Slot) : Check Frame :=
  if frame.stack.length + 1 < frame.maxStack then
    .ok { frame with stack := second :: first :: frame.stack }
  else
    .error .stackOverflow

/-- `pop_category1`. -/
def popCategory1 (frame : Frame) : Check (Slot × Frame) :=
  match frame.stack with
  | [] => .error .stackUnderflow
  | slot :: rest =>
      if slot.tag = .double2 ∨ slot.tag = .long2 then
        .error .stackBadType
      else
        .ok (slot, { frame with stack := rest })

/-- `pop_category2`: the lower word first, then the upper one. -/
def popCategory2 (frame : Frame) : Check (Slot × Slot × Frame) :=
  match frame.stack with
  | second :: first :: rest =>
      if first.tag = .double2 ∨ first.tag = .long2 then
        .error .stackBadType
      else
        .ok (first, second, { frame with stack := rest })
  | _ => .error .stackUnderflow

/-- `pop_ref`. -/
def popRef (frame : Frame) : Check (Slot × Frame) := do
  let (slot, frame) ← frame.popCategory1
  if slot.tag.isReference then
    .ok (slot, frame)
  else
    .error .stackBadType

/-- `pop(StackMapKind)`. -/
def popTag (frame : Frame) (tag : Tag) : Check Frame :=
  match frame.stack with
  | [] => .error .stackUnderflow
  | slot :: rest =>
      if slot.tag ≠ tag then
        .error .stackBadType
      else
        .ok { frame with stack := rest }

/-- `compute_is_subtype_of`. No class is asked about when one is not recorded. -/
def computeIsSubtypeOf (world : ClassWorld) (source : Option ClassName)
    (target : ClassName) : Check Bool :=
  if source = some target ∨ target = javaLangObject then
    .ok true
  else
    match source with
    | none => .error .pendingException
    | some name =>
        match world.isSubtype name target with
        | none => .error .pendingException
        | some result => .ok result

/-- `pop_object`. -/
def popObject (world : ClassWorld) (frame : Frame) (name : ClassName) : Check Frame := do
  let (slot, frame) ← frame.popCategory1
  match slot.tag with
  | .object => do
      let result ← computeIsSubtypeOf world slot.klass name
      if result then
        .ok frame
      else
        .error .stackBadType
  | .null => .ok frame
  | _ => .error .stackBadType

/-- Pushes several slots of one tag each, last one on top. -/
def pushTags (frame : Frame) : List Tag → Check Frame
  | [] => .ok frame
  | tag :: rest => do
      let frame ← frame.push (.of tag)
      frame.pushTags rest

/-- Pops several tags, the first one from the top. -/
def popTags (frame : Frame) : List Tag → Check Frame
  | [] => .ok frame
  | tag :: rest => do
      let frame ← frame.popTag tag
      frame.popTags rest

/-- The loop of `pop_invoke_arguments` over the words from the first argument
on. The second word of a `long` or `double` is only asserted. -/
def matchArguments (world : ClassWorld) : List FieldType → List Slot → Check Unit
  | [], _ => .ok ()
  | _ :: _, [] => .error .stackBadType
  | .primitive type :: parameters, slot :: rest =>
      if slot.tag ≠ type.tag then
        .error .stackBadType
      else
        matchArguments world parameters (rest.drop (type.words - 1))
  | .reference name :: parameters, slot :: rest => do
      if slot.tag = .null then
        matchArguments world parameters rest
      else if slot.tag = .object then
        let result ← computeIsSubtypeOf world slot.klass name
        if result then
          matchArguments world parameters rest
        else
          .error .stackBadType
      else
        .error .stackBadType

/-- `pop_invoke_arguments`. -/
def popInvokeArguments (world : ClassWorld) (frame : Frame) (signature : Signature) :
    Check (Nat × Frame) :=
  let size := signature.parameterWordSize
  if frame.stack.length < size then
    .error .argsNotEnough
  else do
    matchArguments world signature.parameters (frame.stack.take size).reverse
    .ok (size, { frame with stack := frame.stack.drop size })

/-! ## The locals -/

/-- `bogify_surrounding_doublewords`. The class of the slot stays. -/
def bogifySurroundingDoublewords (locals : List Slot) (index : Nat) : List Slot :=
  match index with
  | 0 => locals
  | previous + 1 =>
      match locals[previous]? with
      | some slot =>
          if slot.tag = .double ∨ slot.tag = .long then
            locals.set previous { slot with tag := .bogus }
          else
            locals
      | none => locals

/-- `set_local` and `set_local_ref`. -/
def setLocal (frame : Frame) (index : Nat) (slot : Slot) : Check Frame :=
  if index < frame.locals.length then
    .ok { frame with
      locals := bogifySurroundingDoublewords (frame.locals.set index slot) index }
  else
    .error .localsOverflow

/-- `set_local2`. -/
def setLocal2 (frame : Frame) (index : Nat) (first second : Tag) : Check Frame :=
  if index + 1 < frame.locals.length then
    .ok { frame with
      locals :=
        bogifySurroundingDoublewords
          ((frame.locals.set index (.of first)).set (index + 1) (.of second)) index }
  else
    .error .localsOverflow

/-- `check_local`. -/
def checkLocal (frame : Frame) (index : Nat) (tag : Tag) : Check Unit :=
  match frame.locals[index]? with
  | none => .error .localsOverflow
  | some slot => if slot.tag ≠ tag then .error .localsBadType else .ok ()

/-- `check_local2`. The second word is only asserted. -/
def checkLocal2 (frame : Frame) (index : Nat) (tag : Tag) : Check Unit :=
  if index + 1 < frame.locals.length then
    frame.checkLocal index tag
  else
    .error .localsOverflow

/-- `check_local_ref`: the slot to be pushed. -/
def checkLocalRef (frame : Frame) (index : Nat) : Check Slot :=
  match frame.locals[index]? with
  | none => .error .localsOverflow
  | some slot =>
      if slot.tag = .object then
        .ok slot
      else if slot.tag.isReference then
        .ok (.of slot.tag)
      else
        .error .localsBadType

/-- `replace_stack_type_with_real_type`. -/
def replaceStackType (frame : Frame) (source : Tag) (target : Slot) : Frame :=
  let replace (slot : Slot) : Slot := if slot.tag = source then target else slot
  { frame with
    stack := frame.stack.map replace
    locals := frame.locals.map replace }

/-! ## Stack maps -/

/-- `is_assignable_to`. -/
def isAssignableTo (world : ClassWorld) (source target : Slot) : Check Bool :=
  if source.tag = target.tag then
    if source.tag = .object then
      match target.klass with
      | none => .error .pendingException
      | some name => computeIsSubtypeOf world source.klass name
    else
      .ok true
  else if target.tag = .bogus then
    .ok true
  else
    .ok (decide (target.tag = .object ∧ source.tag = .null))

/-- The result of `is_assignable_to` as `check_stackmap_match` takes it: an
exception while a class is resolved counts as a mismatch. -/
def assignable (world : ClassWorld) (source target : Slot) : Bool :=
  match isAssignableTo world source target with
  | .ok result => result
  | .error _ => false

/-- `SM_CHECK`, `SM_MERGE` and `SM_EXIST`. -/
structure MatchFlags where
  check : Bool
  merge : Bool
  exist : Bool
  deriving DecidableEq, Repr

/-- One of the two loops of `check_stackmap_match`, over slots of the frame in
index order. The variable for the class keeps its value at entries that carry no
class, and a merge stores it there all the same. -/
def matchSlots (world : ClassWorld) (flags : MatchFlags) (error : VerifyError) :
    Option ClassName → List Slot → List Slot → Check (List Slot)
  | _, [], slots => .ok slots
  | _, _ :: _, [] => .error error
  | klass, entry :: entries, slot :: slots =>
      let klass := if entry.tag = .object then entry.klass else klass
      if flags.check && !assignable world slot ⟨entry.tag, klass⟩ then
        .error error
      else do
        let rest ← matchSlots world flags error klass entries slots
        .ok ((if flags.merge then ⟨entry.tag, klass⟩ else slot) :: rest)

/-- The locals beyond those of the stack map after a merge. -/
def clearBeyond (flags : MatchFlags) (count : Nat) (slots : List Slot) : List Slot :=
  if flags.merge then
    slots.take count ++ (slots.drop count).map fun _ => .of .bogus
  else
    slots

/-- The map says that `this` is not initialised yet. -/
def needsInitialization (map : StackMap) : Bool :=
  (map.locals ++ map.stack).any fun entry => decide (entry.tag = .initObject)

/-- The part of `check_stackmap_match` after a stack map was found. When the map
is only taken over, the depth of the stack is that of the map. -/
def matchStackMap (world : ClassWorld) (isObjectInitializer : Bool) (flags : MatchFlags)
    (error : VerifyError) (map : StackMap) (frame : Frame) : Check Frame := do
  let locals ← matchSlots world flags error none map.locals frame.locals
  if flags.check ∧ map.stack.length ≠ frame.stack.length then
    .error error
  else do
    let slots := if flags.check then frame.stack.reverse else map.stack
    let stack ← matchSlots world flags error none map.stack slots
    if isObjectInitializer ∧ frame.needInitialization ∧ needsInitialization map = false then
      .error error
    else
      .ok { frame with
        locals := clearBeyond flags map.locals.length locals
        stack := if flags.merge then stack.reverse else frame.stack
        needInitialization :=
          if isObjectInitializer ∧ flags.merge then
            needsInitialization map
          else
            frame.needInitialization }

end Frame

end PicoJvm.Verifier
