import PicoJvm.Bytecode.CheckBytecodes
import PicoJvm.Verifier.Instruction
import PicoJvm.Verifier.Frame

/-!
# `VerifyMethodCodes`

The closure with which the verifier interprets bytecodes, and the iteration over
a whole method.
-/

namespace PicoJvm.Verifier

open PicoJvm.CodeBytes
open PicoJvm.Bytecodes
open PicoJvm.CheckBytecodes (getInstructionStarts lengthForAt Starts)

/-- What a closure call can look at besides the frame. -/
structure Context where
  method : Method
  world : ClassWorld
  bci : Nat

namespace Context

/-- The entry at a constant-pool index, after the bounds check. -/
def constant (context : Context) (index : Nat) : Check Constant :=
  match context.method.constants[index]? with
  | none => .error .cpIndexOutOfBounds
  | some entry => .ok entry

/-- The class named by a constant-pool index, after the tag check. -/
def klassName (context : Context) (index : Nat) : Check ClassName := do
  match ← context.constant index with
  | .klass name => .ok name
  | _ => .error .expectClass

end Context

/-- `get_stackmap_index_for_offset`: the first stack map for a bytecode index. -/
def stackmapAt (method : Method) (bci : Int) : Option StackMap :=
  method.stackmaps.find? fun map => decide ((map.bci : Int) = bci)

/-- `check_stackmap_match`. -/
def checkStackmapMatch (context : Context) (target : Int) (flags : Frame.MatchFlags)
    (error : VerifyError) (frame : Frame) : Check Frame :=
  match stackmapAt context.method target with
  | none => if flags.exist then .error error else .ok frame
  | some map =>
      frame.matchStackMap context.world context.method.isObjectInitializer flags error map

/-- `check_current_target`. -/
def checkCurrentTarget (context : Context) (noControlFlow : Bool) (frame : Frame) :
    Check Frame :=
  checkStackmapMatch context context.bci ⟨!noControlFlow, true, noControlFlow⟩ .seqBadType frame

/-- `check_branch_target` and `check_handler_target`. -/
def checkTarget (context : Context) (target : Int) (frame : Frame) : Check Frame :=
  checkStackmapMatch context target ⟨true, false, true⟩ .targetBadType frame

/-- A run of `check_branch_target` over several destinations. -/
def checkTargets (context : Context) : List Int → Frame → Check Frame
  | [], frame => .ok frame
  | target :: rest, frame => do
      let frame ← checkTarget context target frame
      checkTargets context rest frame

/-! ## Stack helpers -/

def pushPrimitive (type : PrimitiveType) (frame : Frame) : Check Frame :=
  frame.pushTags type.tags.reverse

def popPrimitive (type : PrimitiveType) (frame : Frame) : Check Frame :=
  frame.popTags type.tags

def popInteger (frame : Frame) : Check Frame :=
  frame.popTag .integer

/-- Pushes a value of a field type. -/
def pushValue (type : FieldType) (frame : Frame) : Check Frame :=
  match type with
  | .primitive type => pushPrimitive type frame
  | .reference name => frame.push (.object name)

/-- Pops a value of a field type. -/
def popValue (world : ClassWorld) (type : FieldType) (frame : Frame) : Check Frame :=
  match type with
  | .primitive type => popPrimitive type frame
  | .reference name => frame.popObject world name

/-- `is_array_name`, false when no class is recorded. -/
def isArrayName : Option ClassName → Bool
  | some (.typeArray _) | some (.objArray _) => true
  | _ => false

/-- `reference_array_element_name`. -/
def referenceArrayElementName : Option ClassName → Option ClassName
  | some (.objArray element) => some element
  | _ => none

/-- Arrays whose elements an access of the given type may touch. -/
def elementMatches (type element : PrimitiveType) : Bool :=
  match type with
  | .boolean | .byte => decide (element = .boolean ∨ element = .byte)
  | _ => decide (type = element)

/-- `pop_array_of`. -/
def popArrayOf (type : PrimitiveType) (frame : Frame) : Check Frame := do
  let (slot, frame) ← frame.popRef
  match slot.tag, slot.klass with
  | .null, _ => .ok frame
  | .object, some (.typeArray element) =>
      if elementMatches type element then
        .ok frame
      else
        .error .stackBadType
  | _, _ => .error .stackBadType

/-! ## Locals and arrays -/

/-- `check_local` and `check_local2`, by the size of the type. -/
def checkPrimitiveLocal (type : PrimitiveType) (index : Nat) (frame : Frame) : Check Unit :=
  if type.words = 2 then
    frame.checkLocal2 index type.tag
  else
    frame.checkLocal index type.tag

/-- `load_local`. -/
def loadLocal (kind : Kind) (index : Nat) (frame : Frame) : Check Frame :=
  match kind with
  | .object => do
      let slot ← frame.checkLocalRef index
      frame.push slot
  | .primitive type => do
      checkPrimitiveLocal type index frame
      pushPrimitive type frame

/-- `set_local(index, BasicType)`. -/
def setPrimitiveLocal (type : PrimitiveType) (index : Nat) (frame : Frame) : Check Frame :=
  match type with
  | .long => frame.setLocal2 index .long .long2
  | .double => frame.setLocal2 index .double .double2
  | _ => frame.setLocal index (.of type.tag)

/-- `store_local`. -/
def storeLocal (kind : Kind) (index : Nat) (frame : Frame) : Check Frame :=
  match kind with
  | .object => do
      let (slot, frame) ← frame.popRef
      frame.setLocal index slot
  | .primitive type => do
      let frame ← popPrimitive type frame
      setPrimitiveLocal type index frame

/-- `array_length`. -/
def arrayLength (frame : Frame) : Check Frame := do
  let (slot, frame) ← frame.popRef
  if slot.tag = .null ∨ (slot.tag = .object ∧ isArrayName slot.klass) then
    frame.push (.of .integer)
  else
    .error .expectArray

/-- `load_array`. For `aaload` any reference but null counts by its class. -/
def loadArray (kind : Kind) (frame : Frame) : Check Frame := do
  let frame ← popInteger frame
  match kind with
  | .object => do
      let (slot, frame) ← frame.popRef
      if slot.tag = .null then
        frame.push (.of .null)
      else
        match referenceArrayElementName slot.klass with
        | some element => frame.push (.object element)
        | none => .error .stackBadType
  | .primitive type => do
      let frame ← popArrayOf type frame
      pushPrimitive type frame

/-- `store_array`. -/
def storeArray (kind : Kind) (frame : Frame) : Check Frame :=
  match kind with
  | .object => do
      let (element, frame) ← frame.popRef
      let frame ← popInteger frame
      let (array, frame) ← frame.popRef
      if (element.tag ≠ .null ∧ element.tag ≠ .object) ∨
          (array.tag ≠ .null ∧ array.tag ≠ .object) then
        .error .aastoreBadType
      else if array.tag ≠ .null ∧ (referenceArrayElementName array.klass).isNone then
        .error .aastoreBadType
      else
        .ok frame
  | .primitive type => do
      let frame ← popPrimitive type frame
      let frame ← popInteger frame
      popArrayOf type frame

/-! ## Stack shuffles -/

def dup (frame : Frame) : Check Frame := do
  let (first, frame) ← frame.popCategory1
  let frame ← frame.push first
  frame.push first

def dup2 (frame : Frame) : Check Frame := do
  let (first, second, frame) ← frame.popCategory2
  let frame ← frame.push2 first second
  frame.push2 first second

def dupX1 (frame : Frame) : Check Frame := do
  let (first, frame) ← frame.popCategory1
  let (second, frame) ← frame.popCategory1
  let frame ← frame.push first
  let frame ← frame.push second
  frame.push first

def dup2X1 (frame : Frame) : Check Frame := do
  let (first, second, frame) ← frame.popCategory2
  let (third, frame) ← frame.popCategory1
  let frame ← frame.push2 first second
  let frame ← frame.push third
  frame.push2 first second

def dupX2 (frame : Frame) : Check Frame := do
  let (first, frame) ← frame.popCategory1
  let (second, third, frame) ← frame.popCategory2
  let frame ← frame.push first
  let frame ← frame.push2 second third
  frame.push first

def dup2X2 (frame : Frame) : Check Frame := do
  let (first, second, frame) ← frame.popCategory2
  let (third, fourth, frame) ← frame.popCategory2
  let frame ← frame.push2 first second
  let frame ← frame.push2 third fourth
  frame.push2 first second

def swap (frame : Frame) : Check Frame := do
  let (first, frame) ← frame.popCategory1
  let (second, frame) ← frame.popCategory1
  let frame ← frame.push first
  frame.push second

/-! ## Arithmetic and control -/

/-- The type of the upper operand: the count of a shift is an `int`. -/
def shiftedType (type : PrimitiveType) : BinaryOp → PrimitiveType
  | .shift => .int
  | .other => type

/-- `binary`. -/
def binary (type : PrimitiveType) (op : BinaryOp) (frame : Frame) : Check Frame := do
  let frame ← popPrimitive (shiftedType type op) frame
  let frame ← popPrimitive type frame
  pushPrimitive type frame

/-- `convert`, and `neg` with equal types. -/
def convert (source target : PrimitiveType) (frame : Frame) : Check Frame := do
  let frame ← popPrimitive source frame
  pushPrimitive target frame

def compare (type : PrimitiveType) (frame : Frame) : Check Frame := do
  let frame ← popPrimitive type frame
  let frame ← popPrimitive type frame
  pushPrimitive .int frame

/-- The kind a value is returned as: small integers are returned as `int`. -/
def returnKind : FieldType → Kind
  | .primitive .byte | .primitive .boolean | .primitive .char | .primitive .short =>
      .primitive .int
  | type => type.kind

/-- `return_op`. -/
def returnOp (context : Context) (kind : Option Kind) (frame : Frame) : Check Frame :=
  let returnType := context.method.signature.returnType
  if frame.needInitialization then
    .error .returnUninitThis
  else if returnType.map returnKind ≠ kind then
    .error .retvalBadType
  else
    match returnType with
    | none => .ok frame
    | some (.reference name) => frame.popObject context.world name
    | some (.primitive type) => popPrimitive type frame

/-- The keys of a `lookupswitch` must increase; the destinations are checked on
the way. -/
def checkLookup (context : Context) : Option Int → List (Int × Int) → Frame → Check Frame
  | _, [], frame => .ok frame
  | last, (key, dest) :: rest, frame =>
      if last.any fun last => decide (key ≤ last) then
        .error .badLookupswitch
      else do
        let frame ← checkTarget context dest frame
        checkLookup context (some key) rest frame

/-! ## Fields -/

/-- The object of a `putfield`. The holder's own fields may be set before `this` is
initialised. -/
def popFieldOwner (context : Context) (holder target : ClassName) (name : String)
    (type : FieldType) (frame : Frame) : Check Frame := do
  let (slot, frame) ← frame.popRef
  let inDeclaringClass :=
    decide (slot.tag = .initObject ∧ context.world.holderName = holder) &&
      context.world.declaresField name type
  let frame ← frame.push (if inDeclaringClass then .object context.world.holderName else slot)
  frame.popObject context.world target

/-- `handle_field_reference`. -/
def handleFieldReference (context : Context) (index : Nat) (isStatic isPut : Bool)
    (frame : Frame) : Check Frame := do
  match ← context.constant index with
  | .field holder name type =>
      match context.world.isProtectedAccess index with
      | none => .error .pendingException
      | some isProtected =>
          let target := if isProtected then context.world.holderName else holder
          if isPut then do
            let frame ← popValue context.world type frame
            if isStatic then
              .ok frame
            else
              popFieldOwner context holder target name type frame
          else if isStatic then
            pushValue type frame
          else do
            let frame ← frame.popObject context.world target
            pushValue type frame
  | _ => .error .expectFieldref

/-! ## Invocations -/

/-- The four invoke bytecodes. -/
inductive InvokeCode
  | interface | special | static | virtual
  deriving DecidableEq, Repr

/-- The class an object created by the `new` at `newBci` will have, when `<init>`
of class `holder` is called on it. -/
def newObjectName (context : Context) (newBci : Nat) (holder : ClassName) :
    Check ClassName :=
  let code := context.method.code
  if newBci + 3 > code.length ∨ byteD code newBci ≠ Bytecodes.newObject then
    .error .expectNew
  else do
    let name ← context.klassName (javaUshort code (newBci + 1))
    if name ≠ holder then
      .error .badInitCall
    else
      .ok name

/-- The bytecode index lies in the range of some handler. -/
def inHandlerRange (context : Context) : Bool :=
  context.method.exceptionTable.any fun handler =>
    decide (handler.startIndex ≤ context.bci ∧ context.bci < handler.endIndex)

/-- The receiver of a call of `<init>`. -/
def initReceiver (context : Context) (holder : ClassName) (frame : Frame) :
    Check Frame := do
  let (receiver, frame) ← frame.popCategory1
  match receiver.tag with
  | .newObject newBci => do
      let name ← newObjectName context newBci holder
      .ok (frame.replaceStackType receiver.tag (.object name))
  | .initObject =>
      if holder ≠ context.world.holderName ∧ some holder ≠ context.world.superName then
        .error .badInitCall
      else if frame.needInitialization = false then
        .error .badInitCall
      else if inHandlerRange context then
        .error .badInitCall
      else
        .ok (({ frame with needInitialization := false } : Frame).replaceStackType receiver.tag
          (.object context.world.holderName))
  | _ => .error .expectUninit

/-- The receiver of a call of any other method. -/
def plainReceiver (context : Context) (opcode : InvokeCode) (index : Nat)
    (holder : ClassName) (frame : Frame) : Check Frame :=
  match opcode with
  | .special =>
      if context.world.isSubclassOfHolder holder then
        frame.popObject context.world context.world.holderName
      else
        .error .invokespecial
  | .virtual =>
      match context.world.isProtectedAccess index with
      | none => .error .pendingException
      | some isProtected =>
          frame.popObject context.world
            (if isProtected then context.world.holderName else holder)
  | _ => frame.popObject context.world holder

/-- `push_invoke_result`. -/
def pushInvokeResult (signature : Signature) (frame : Frame) : Check Frame :=
  match signature.returnType with
  | none => .ok frame
  | some type => pushValue type frame

/-- The receiver of a call, which an `invokestatic` does not have. -/
def popReceiver (context : Context) (opcode : InvokeCode) (index : Nat)
    (holder : ClassName) (name : String) (frame : Frame) : Check Frame :=
  if opcode = .static then
    .ok frame
  else if name = objectInitializerName then
    initReceiver context holder frame
  else
    plainReceiver context opcode index holder frame

/-- The body of `handle_invoker`, once the entry has been found. -/
def invokeMember (context : Context) (opcode : InvokeCode) (index : Nat)
    (holder : ClassName) (name : String) (signature : Signature) (frame : Frame) :
    Check (Nat × Frame) := do
  let (words, frame) ← frame.popInvokeArguments context.world signature
  if name.toList.head? = some '<' ∧ (opcode ≠ .special ∨ name ≠ objectInitializerName) then
    .error .expectInvokespecial
  else do
    let frame ← popReceiver context opcode index holder name frame
    let frame ← pushInvokeResult signature frame
    .ok (words, frame)

/-- `handle_invoker`. -/
def handleInvoker (context : Context) (opcode : InvokeCode) (index : Nat)
    (frame : Frame) : Check (Nat × Frame) := do
  match ← context.constant index with
  | .method holder name signature | .interfaceMethod holder name signature =>
      invokeMember context opcode index holder name signature frame
  | _ => .error .expectMethodref

/-- `invoke_interface`: the count and the zero after the index are checked last. -/
def invokeInterface (context : Context) (index numOfArgs zeroByte : Nat) (frame : Frame) :
    Check Frame := do
  let (words, frame) ← handleInvoker context .interface index frame
  if numOfArgs ≠ words + 1 then
    .error .nargsMismatch
  else if zeroByte ≠ 0 then
    .error .expectZero
  else
    .ok frame

/-- The other three invocations. -/
def invokeOther (context : Context) (opcode : InvokeCode) (index : Nat) (frame : Frame) :
    Check Frame := do
  let (_, frame) ← handleInvoker context opcode index frame
  .ok frame

/-! ## Allocation and casts -/

/-- `new_object`. -/
def newObject (context : Context) (index : Nat) (frame : Frame) : Check Frame := do
  let name ← context.klassName index
  if isArrayName (some name) then
    .error .expectClass
  else
    frame.push (.of (.newObject context.bci))

/-- The primitive type with a `BasicType` number. -/
def primitiveOfNumber : Nat → Option PrimitiveType
  | 4 => some .boolean
  | 5 => some .char
  | 6 => some .float
  | 7 => some .double
  | 8 => some .byte
  | 9 => some .short
  | 10 => some .int
  | 11 => some .long
  | _ => none

/-- `new_basic_array`. -/
def newBasicArray (type : Nat) (frame : Frame) : Check Frame := do
  let frame ← popInteger frame
  match primitiveOfNumber type with
  | some element => frame.push (.object (.typeArray element))
  | none => .error .badInstr

/-- `new_object_array`. -/
def newObjectArray (context : Context) (index : Nat) (frame : Frame) : Check Frame := do
  let name ← context.klassName index
  let frame ← popInteger frame
  frame.push (.object (.objArray name))

/-- The loop of `new_multi_array`: the dimensions that are left when the class
has no more. -/
def popDimensions : Nat → ClassName → Frame → Check (Nat × Frame)
  | 0, _, frame => .ok (0, frame)
  | dim + 1, name, frame => do
      let frame ← popInteger frame
      match name with
      | .objArray element =>
          if isArrayName (some element) then
            popDimensions dim element frame
          else
            .ok (dim, frame)
      | _ => .ok (dim, frame)

/-- `new_multi_array`. -/
def newMultiArray (context : Context) (index dim : Nat) (frame : Frame) : Check Frame := do
  let name ← context.klassName index
  if dim > 0 ∧ isArrayName (some name) then do
    let (left, frame) ← popDimensions dim name frame
    if left = 0 then
      frame.push (.object name)
    else
      .error .multianewarray
  else
    .error .multianewarray

/-- `check_cast`. -/
def checkCast (context : Context) (index : Nat) (frame : Frame) : Check Frame := do
  let name ← context.klassName index
  let frame ← frame.popObject context.world javaLangObject
  frame.push (.object name)

/-- `instance_of`. -/
def instanceOf (context : Context) (index : Nat) (frame : Frame) : Check Frame := do
  let _ ← context.klassName index
  let frame ← frame.popObject context.world javaLangObject
  frame.push (.of .integer)

/-! ## One instruction -/

/-- `pop_ref` where only the check matters. -/
def dropRef (frame : Frame) : Check Frame := do
  let (_, frame) ← frame.popRef
  .ok frame

/-- What `ifnull` and its siblings, or the comparisons with 0, pop. -/
def popTested (isNullTest : Bool) (frame : Frame) : Check Frame :=
  if isNullTest then dropRef frame else popInteger frame

/-- The closure: what the verifier does for each call. -/
def verifyInstruction (context : Context) (instruction : Instruction) (frame : Frame) :
    Check Frame :=
  match instruction with
  | .pushInt => frame.push (.of .integer)
  | .pushLong => pushPrimitive .long frame
  | .pushFloat => frame.push (.of .float)
  | .pushDouble => pushPrimitive .double frame
  | .pushObj isNull => frame.push (if isNull then .of .null else .object javaLangString)
  | .loadLocal kind index => loadLocal kind index frame
  | .storeLocal kind index => storeLocal kind index frame
  | .incrementLocalInt index => do
      frame.checkLocal index .integer
      .ok frame
  | .arrayLength => arrayLength frame
  | .loadArray kind => loadArray kind frame
  | .storeArray kind => storeArray kind frame
  | .nop => .ok frame
  | .pop => do
      let (_, frame) ← frame.popCategory1
      .ok frame
  | .pop2 => do
      let (_, _, frame) ← frame.popCategory2
      .ok frame
  | .dup => dup frame
  | .dup2 => dup2 frame
  | .dupX1 => dupX1 frame
  | .dup2X1 => dup2X1 frame
  | .dupX2 => dupX2 frame
  | .dup2X2 => dup2X2 frame
  | .swap => swap frame
  | .neg type => convert type type frame
  | .binary type op => binary type op frame
  | .convert source target => convert source target frame
  | .branchIf isNullTest dest => do
      let frame ← popTested isNullTest frame
      checkTarget context dest frame
  | .branchIfIcmp dest => do
      let frame ← popInteger frame
      let frame ← popInteger frame
      checkTarget context dest frame
  | .branchIfAcmp dest => do
      let frame ← dropRef frame
      let frame ← dropRef frame
      checkTarget context dest frame
  | .compare type => compare type frame
  | .branch dest => checkTarget context dest frame
  | .returnOp kind => returnOp context kind frame
  | .tableSwitch defaultDest dests => do
      let frame ← popInteger frame
      checkTargets context (defaultDest :: dests) frame
  | .lookupSwitch defaultDest pairs => do
      let frame ← popInteger frame
      let frame ← checkTarget context defaultDest frame
      checkLookup context none pairs frame
  | .getField index => handleFieldReference context index false false frame
  | .putField index => handleFieldReference context index false true frame
  | .getStatic index => handleFieldReference context index true false frame
  | .putStatic index => handleFieldReference context index true true frame
  | .invokeInterface index numOfArgs zeroByte =>
      invokeInterface context index numOfArgs zeroByte frame
  | .invokeSpecial index => invokeOther context .special index frame
  | .invokeStatic index => invokeOther context .static index frame
  | .invokeVirtual index => invokeOther context .virtual index frame
  | .throwException => frame.popObject context.world javaLangThrowable
  | .newObject index => newObject context index frame
  | .newBasicArray type => newBasicArray type frame
  | .newObjectArray index => newObjectArray context index frame
  | .newMultiArray index dim => newMultiArray context index dim frame
  | .checkCast index => checkCast context index frame
  | .instanceOf index => instanceOf context index frame
  | .monitorEnter => dropRef frame
  | .monitorExit => dropRef frame
  | .illegalCode => .error .badInstr

/-- The calls after which `no_control_flow` is set. -/
def Instruction.endsFlow : Instruction → Bool
  | .branch _ | .returnOp _ | .tableSwitch _ _ | .lookupSwitch _ _ | .throwException => true
  | _ => false

/-! ## The iteration -/

/-- The fields of the closure that change from one bytecode to the next. The
stack maps not yet met stand for `_current_stackmap_index`. -/
structure VerifyState where
  frame : Frame
  remaining : List StackMap
  noControlFlow : Bool
  deriving DecidableEq, Repr

/-- The order of the stack maps, in `bytecode_prolog`. -/
def meetStackmap (bci : Nat) : List StackMap → Check (List StackMap)
  | [] => .ok []
  | map :: rest =>
      if map.bci = bci then
        .ok rest
      else if map.bci < bci then
        .error .badStackmap
      else
        .ok (map :: rest)

/-- The class a handler catches. -/
def catchName (context : Context) (handler : Handler) : Check ClassName :=
  if handler.classIndex = 0 then
    .ok javaLangThrowable
  else
    context.klassName handler.classIndex

/-- `check_exception_handlers_for_bci`: each handler must accept the locals with
the exception alone on the stack. -/
def checkHandlersForBci (context : Context) (frame : Frame) : List Handler → Check Unit
  | [] => .ok ()
  | handler :: rest =>
      if handler.startIndex ≤ context.bci ∧ context.bci < handler.endIndex then do
        let name ← catchName context handler
        let thrown ← ({ frame with stack := [] } : Frame).push (.object name)
        let _ ← checkTarget context handler.handlerIndex thrown
        checkHandlersForBci context frame rest
      else
        checkHandlersForBci context frame rest

/-- `bytecode_prolog`. -/
def bytecodeProlog (context : Context) (state : VerifyState) : Check VerifyState := do
  let remaining ← meetStackmap context.bci state.remaining
  let frame ← checkCurrentTarget context state.noControlFlow state.frame
  checkHandlersForBci context frame context.method.exceptionTable
  .ok ⟨frame, remaining, false⟩

/-- `Method::iterate` with this closure. -/
def iterate (method : Method) (world : ClassWorld) :
    Nat → Nat → VerifyState → Check VerifyState
  | fuel, bci, state =>
      if bci < method.code.length then
        match fuel with
        | 0 => .error .badInstr
        | fuel + 1 => do
            let context : Context := ⟨method, world, bci⟩
            let instruction := decode method.code method.constants bci
            let state ← bytecodeProlog context state
            let frame ← verifyInstruction context instruction state.frame
            match lengthForAt method.code bci with
            | .ok length =>
                if length ≤ 0 then
                  .error .badInstr
                else
                  iterate method world fuel (bci + length.toNat)
                    ⟨frame, state.remaining, instruction.endsFlow⟩
            | .error _ => .error .badInstr
      else if bci > method.code.length then
        .error .badInstr
      else
        .ok state

/-! ## The method -/

/-- The start mark of a bytecode index, 0 outside the code. -/
def startMarkAt (starts : Starts) (bci : Nat) : Nat :=
  starts.getD bci 0

/-- The test of one row of the exception table in `check_handlers`. -/
def checkHandler (method : Method) (world : ClassWorld) (starts : Starts)
    (handler : Handler) : Check Unit :=
  let size := method.code.length
  if handler.startIndex > handler.endIndex ∨ handler.startIndex ≥ size ∨
      handler.handlerIndex ≥ size ∨ handler.endIndex = 0 ∨ handler.endIndex > size ∨
      startMarkAt starts handler.startIndex = 0 ∨
      startMarkAt starts handler.handlerIndex = 0 ∨
      (handler.endIndex < size ∧ startMarkAt starts handler.endIndex = 0) then
    .error .corruptedExceptionHandler
  else if handler.classIndex = 0 then
    .ok ()
  else do
    let name ← (⟨method, world, 0⟩ : Context).klassName handler.classIndex
    match world.isThrowable name with
    | none => .error .pendingException
    | some true => .ok ()
    | some false => .error .expectThrowable

/-- `check_handlers`. -/
def checkHandlers (method : Method) (world : ClassWorld) (starts : Starts) :
    List Handler → Check Unit
  | [] => .ok ()
  | handler :: rest => do
      checkHandler method world starts handler
      checkHandlers method world starts rest

/-- The bytecode index in a tag of a stack map belongs to a `new`. -/
def newIsMarked (starts : Starts) (slot : Slot) : Bool :=
  match slot.tag with
  | .newObject bci => decide (startMarkAt starts bci &&& 2 ≠ 0)
  | _ => true

/-- `check_news`. -/
def checkNews (method : Method) (starts : Starts) : Check Unit :=
  if method.stackmaps.all fun map => (map.locals ++ map.stack).all (newIsMarked starts) then
    .ok ()
  else
    .error .badStackmap

/-- The loop of `initialize_locals` over the parameters. -/
def initializeParameters : List FieldType → Nat → Frame → Check (Nat × Frame)
  | [], index, frame => .ok (index, frame)
  | .reference name :: rest, index, frame => do
      let frame ← frame.setLocal index (.object name)
      initializeParameters rest (index + 1) frame
  | .primitive type :: rest, index, frame => do
      let frame ← setPrimitiveLocal type index frame
      initializeParameters rest (index + type.words) frame

/-- The loop of `initialize_locals` over the locals that are left. -/
def clearLocals : Nat → Nat → Frame → Check Frame
  | 0, _, frame => .ok frame
  | count + 1, index, frame => do
      let frame ← frame.setLocal index (.of .bogus)
      clearLocals count (index + 1) frame

/-- The slot for `this`, which a constructor has to initialise. -/
def initializeThis (method : Method) (world : ClassWorld) (frame : Frame) : Check Frame :=
  if method.isStatic then
    .ok frame
  else if method.holderIsObject = false ∧ method.isObjectInitializer then
    ({ frame with needInitialization := true } : Frame).setLocal 0 (.of .initObject)
  else
    frame.setLocal 0 (.object world.holderName)

/-- `initialize_locals`, for a frame whose arrays have just been made. -/
def initializeLocals (method : Method) (world : ClassWorld) : Check Frame := do
  let frame ← initializeThis method world
    ⟨method.maxStack, List.replicate method.maxLocals (.of .bogus), [], false⟩
  let (next, frame) ← initializeParameters method.signature.parameters
    (if method.isStatic then 0 else 1) frame
  clearLocals (method.maxLocals - next) next frame

/-- `VerifyMethodCodes::verify`. -/
def verify (method : Method) (world : ClassWorld) : Check Unit := do
  if world.overridesNoFinal = false then
    .error .finalMethodOverride
  else
    match getInstructionStarts method.code with
    | .error _ => .error .badInstr
    | .ok starts => do
        checkHandlers method world starts method.exceptionTable
        checkNews method starts
        let frame ← initializeLocals method world
        let state ←
          iterate method world (method.code.length + 1) 0 ⟨frame, method.stackmaps, false⟩
        if state.remaining ≠ [] then
          .error .badStackmap
        else if state.noControlFlow = false then
          .error .fallThrough
        else
          .ok ()

end PicoJvm.Verifier
