import PicoJvm.Execution.ExceptionFrame
import PicoJvm.Signatures.SignatureStream

/-!
# Fast get accessors

`Method::set_fast_accessor_entry` gives a method of five bytes, which reads a field of its
argument and returns it, an entry that reads the field without a frame. The offset and the type
of the field take the place of two words of the method.
-/

namespace PicoJvm.Accessors

open PicoJvm.Execution (Exn TableEntry)
open PicoJvm.Signatures (BasicType)

/-! ## Memory -/

/-- A word of the stack. A reference is the address of its object, and null is zero. -/
abbrev Word := BitVec 32

abbrev Memory := Nat → BitVec 8

namespace Memory

variable (memory : Memory) (address : Nat)

/-- `*(jbyte*)`, as it is pushed. -/
def jbyte : Word := (memory address).signExtend 32

/-- `*(jshort*)`. -/
def jshort : Word := (memory (address + 1) ++ memory address).signExtend 32

/-- `*(jushort*)`. -/
def jushort : Word := (memory (address + 1) ++ memory address).setWidth 32

/-- `*(jint*)`. -/
def jint : Word :=
  ((memory (address + 3) ++ memory (address + 2) ++ memory (address + 1) ++ memory address :
    BitVec (8 + 8 + 8 + 8)))

end Memory

/-- What an accessor reads of an object. -/
inductive FieldRead
  | getbyte
  | getshort
  | getchar
  | getint
  | getlong
  | getfloat
  | getdouble
  deriving DecidableEq, Repr

/-- The words that are pushed for what is read at an address, the topmost first. -/
def FieldRead.push (memory : Memory) (address : Nat) : FieldRead → List Word
  | .getbyte => [memory.jbyte address]
  | .getshort => [memory.jshort address]
  | .getchar => [memory.jushort address]
  | .getint => [memory.jint address]
  | .getlong => [memory.jint address, memory.jint (address + 4)]
  | .getfloat => [memory.jint address]
  | .getdouble => [memory.jint address, memory.jint (address + 4)]

/-! ## Methods -/

/-- The entries of methods that are told apart here. -/
inductive ExecutionEntry
  /-- `interpreter_method_entry` and `interpreter_fast_method_entry_n`. -/
  | interpreter
  | sharedInvokeCompiler
  | compiledCode
  /-- The `shared_fast_get` accessors. -/
  | fastAccessor (read : FieldRead) (isStatic : Bool)
  | other
  deriving DecidableEq, Repr

def sharedFastGetbyteAccessor : ExecutionEntry := .fastAccessor .getbyte false
def sharedFastGetshortAccessor : ExecutionEntry := .fastAccessor .getshort false
def sharedFastGetcharAccessor : ExecutionEntry := .fastAccessor .getchar false
def sharedFastGetintAccessor : ExecutionEntry := .fastAccessor .getint false
def sharedFastGetlongAccessor : ExecutionEntry := .fastAccessor .getlong false
def sharedFastGetfloatAccessor : ExecutionEntry := .fastAccessor .getfloat false
def sharedFastGetdoubleAccessor : ExecutionEntry := .fastAccessor .getdouble false
def sharedFastGetbyteStaticAccessor : ExecutionEntry := .fastAccessor .getbyte true
def sharedFastGetshortStaticAccessor : ExecutionEntry := .fastAccessor .getshort true
def sharedFastGetcharStaticAccessor : ExecutionEntry := .fastAccessor .getchar true
def sharedFastGetintStaticAccessor : ExecutionEntry := .fastAccessor .getint true
def sharedFastGetlongStaticAccessor : ExecutionEntry := .fastAccessor .getlong true
def sharedFastGetfloatStaticAccessor : ExecutionEntry := .fastAccessor .getfloat true
def sharedFastGetdoubleStaticAccessor : ExecutionEntry := .fastAccessor .getdouble true

/-- What the conversion and the later readers see of a method. -/
structure Method where
  isStatic : Bool
  isNative : Bool
  isSynchronized : Bool
  hasMonitorBytecodes : Bool
  hasInvokeBytecodes : Bool
  sizeOfParameters : Nat
  code : List Nat
  exceptionTable : List TableEntry
  /-- Whether the list of stack maps is there. -/
  hasStackmaps : Bool
  maxLocals : Nat
  maxExecutionStackCount : Nat
  executionEntry : ExecutionEntry
  deriving DecidableEq, Repr

namespace Method

variable (method : Method)

/-- `uses_monitors`. -/
def usesMonitors : Bool := method.isSynchronized || method.hasMonitorBytecodes

/-- `is_quick_native`. -/
def isQuickNative : Bool := method.code.length == 0 && method.isNative

def bytecodeAt (bci : Nat) : Nat := method.code.getD bci 0

/-- `get_Java_u2_index_at`. -/
def getJavaU2IndexAt (bci : Nat) : Nat :=
  256 * method.bytecodeAt bci + method.bytecodeAt (bci + 1)

/-- `fast_accessor_offset`, the word of `max_locals`. -/
def fastAccessorOffset : Nat := method.maxLocals

/-- `is_fast_get_accessor`. -/
def isFastGetAccessor : Bool :=
  let entry := method.executionEntry
  if method.isStatic then
    (entry == sharedFastGetintStaticAccessor) ||
      (entry == sharedFastGetshortStaticAccessor) ||
      (entry == sharedFastGetbyteStaticAccessor) ||
      (entry == sharedFastGetcharStaticAccessor) ||
      (entry == sharedFastGetlongStaticAccessor)
  else
    (entry == sharedFastGetintAccessor) ||
      (entry == sharedFastGetshortAccessor) ||
      (entry == sharedFastGetbyteAccessor) ||
      (entry == sharedFastGetcharAccessor) ||
      (entry == sharedFastGetlongAccessor)

/-- `is_impossible_to_compile`. -/
def isImpossibleToCompile : Bool :=
  match method.executionEntry with
  | .interpreter => false
  | .sharedInvokeCompiler => false
  | .compiledCode => false
  | .fastAccessor _ _ => true
  | .other => true

end Method

/-! ## Resolving a field -/

/-- A field that a constant refers to. -/
structure FieldInfo where
  type : BasicType
  offset : Nat
  isStatic : Bool
  deriving DecidableEq, Repr

/-- A constant for a field, resolved or not. -/
inductive FieldConstant
  | unresolved
  | resolved (field : FieldInfo)
  deriving DecidableEq, Repr

abbrev ConstantPool := Nat → FieldConstant

/-- The virtual machine around a method. -/
structure Machine where
  makeROMDebuggable : Bool
  debuggerActive : Bool
  generateROMImage : Bool
  /-- Whether the staticness of a resolved field is checked for the holder of the method. -/
  checksResolved : Bool
  /-- The lookup of a field, with all its checks of access; whether classes may be loaded for
  it. -/
  resolveField : Bool → Nat → Except Exn FieldInfo
  /-- `IncompatibleClassChangeError`. -/
  fieldChanged : Exn
  /-- The exception that is made when null is used. -/
  nullPointerException : Exn
  /-- The class of a catch type. -/
  klassAt : Nat → Except Exn Nat
  isSubtypeOf : Execution.Subtypes
  memory : Memory

/-- `ConstantPool::field_type_at`: the type and the offset of a field, which is then resolved. -/
def fieldTypeAt (machine : Machine) (loading isStatic : Bool) (index : Nat)
    (constants : ConstantPool) : Except Exn (BasicType × Nat) × ConstantPool :=
  match constants index with
  | .resolved field =>
      if machine.checksResolved ∧ field.isStatic ≠ isStatic then
        (.error machine.fieldChanged, constants)
      else
        (.ok (field.type, field.offset), constants)
  | .unresolved =>
      match machine.resolveField loading index with
      | .error raised => (.error raised, constants)
      | .ok field =>
          if field.isStatic ≠ isStatic then
            (.error machine.fieldChanged, constants)
          else
            (.ok (field.type, field.offset),
              Function.update constants index
                (.resolved { field with offset := field.offset % 65536 }))

/-- `Method::try_resolve_field_access`, in a class that is verified. -/
def tryResolveFieldAccess (machine : Machine) (index : Nat) (isStatic : Bool)
    (constants : ConstantPool) : Option (BasicType × Nat) × ConstantPool :=
  match fieldTypeAt machine false isStatic index constants with
  | (.error _, constants) => (none, constants)
  | (.ok field, constants) => (some field, constants)

/-! ## The conversion -/

/-- `Method::may_convert_to_fast_get_accessor`. -/
def mayConvertToFastGetAccessor (machine : Machine) (method : Method)
    (constants : ConstantPool) : Option (BasicType × Nat) × ConstantPool :=
  if machine.makeROMDebuggable then
    (none, constants)
  else if machine.debuggerActive then
    (none, constants)
  else if method.usesMonitors then
    (none, constants)
  else if method.sizeOfParameters ≠ 1 then
    (none, constants)
  else if method.code.length ≠ 5 then
    (none, constants)
  else if method.bytecodeAt 0 ≠ 42 then
    (none, constants)
  else if method.bytecodeAt 1 ≠ 180 then
    (none, constants)
  else if method.bytecodeAt 4 < 172 ∨ 176 < method.bytecodeAt 4 then
    (none, constants)
  else
    tryResolveFieldAccess machine (method.getJavaU2IndexAt 2) false constants

/-- The number of a type. -/
def typeNumber : BasicType → Nat
  | .tBoolean => 4
  | .tChar => 5
  | .tFloat => 6
  | .tDouble => 7
  | .tByte => 8
  | .tShort => 9
  | .tInt => 10
  | .tLong => 11
  | .tObject => 12
  | .tArray => 13
  | .tVoid => 14
  | .tIllegal => 32

/-- `accessors`. -/
def accessors : List ExecutionEntry :=
  [sharedFastGetbyteAccessor,
   sharedFastGetcharAccessor,
   sharedFastGetfloatAccessor,
   sharedFastGetdoubleAccessor,
   sharedFastGetbyteAccessor,
   sharedFastGetshortAccessor,
   sharedFastGetintAccessor,
   sharedFastGetlongAccessor,
   sharedFastGetintAccessor,
   sharedFastGetintAccessor]

/-- `static_accessors`. -/
def staticAccessors : List ExecutionEntry :=
  [sharedFastGetbyteStaticAccessor,
   sharedFastGetcharStaticAccessor,
   sharedFastGetfloatStaticAccessor,
   sharedFastGetdoubleStaticAccessor,
   sharedFastGetbyteStaticAccessor,
   sharedFastGetshortStaticAccessor,
   sharedFastGetintStaticAccessor,
   sharedFastGetlongStaticAccessor,
   sharedFastGetintStaticAccessor,
   sharedFastGetintStaticAccessor]

/-- `Method::set_fast_accessor_entry`. The type of a field is in the tables. -/
def setFastAccessorEntry (machine : Machine) (method : Method) (constants : ConstantPool) :
    Method × ConstantPool :=
  match mayConvertToFastGetAccessor machine method constants with
  | (none, constants) => (method, constants)
  | (some (type, offset), constants) =>
      if offset ≤ 0x7fff then
        let table := if method.isStatic then staticAccessors else accessors
        ({ method with
          maxLocals := offset % 65536
          maxExecutionStackCount := typeNumber type
          executionEntry := table.getD (typeNumber type - 4) .other }, constants)
      else
        (method, constants)

/-! ## Later readers -/

/-- `Method::bytecode_inline_prepass` comes to compare `max_locals` with the parameters. -/
def inlinePrepassReads (machine : Machine) (method : Method) : Bool :=
  if method.isNative then false
  else if method.isImpossibleToCompile then false
  else if method.usesMonitors then false
  else if method.hasInvokeBytecodes then false
  else if machine.debuggerActive then false
  else if method.code.length > 13 ∨ method.code.length ≤ 1 then false
  else if method.sizeOfParameters > 3 then false
  else if method.isQuickNative || method.isFastGetAccessor then false
  else true

/-- The interpreter makes a frame of the words when the method has its entry, and the compiler
when it may compile the method. -/
def executionReads (method : Method) : Bool :=
  !method.isImpossibleToCompile

/-- The visit of the fields of a method shows the words as `max_execution_stack_count` and
`max_locals`. -/
def iterateFieldsReads (method : Method) : Bool :=
  if method.isQuickNative then false
  else if method.isFastGetAccessor then false
  else true

/-- `ROMOptimizer::remove_redundant_stackmaps` asks for the height of the stack and the number of
locals of a method with stack maps. -/
def removeRedundantStackmapsReads (machine : Machine) (method : Method) : Bool :=
  machine.generateROMImage && method.hasStackmaps

/-- No later reader takes the two words for the sizes of a frame. -/
def KeepsItsWords (machine : Machine) (method : Method) : Prop :=
  executionReads method = false ∧ inlinePrepassReads machine method = false ∧
    iterateFieldsReads method = false ∧ removeRedundantStackmapsReads machine method = false

instance (machine : Machine) (method : Method) : Decidable (KeepsItsWords machine method) :=
  inferInstanceAs (Decidable (_ ∧ _))

end PicoJvm.Accessors
