import PicoJvm.Bytecode.Bytecodes
import PicoJvm.Verifier.Types

/-!
# From bytecodes to closure calls

`Method::iterate_bytecode` turns the bytes at a bytecode index into one call of
a `BytecodeClosure`. An `Instruction` is such a call; the verifier and the
stack-map generator are two interpretations of it.
-/

namespace PicoJvm.Verifier

open PicoJvm.CodeBytes
open PicoJvm.Bytecodes

/-- `BytecodeClosure::binary_op`, as far as an interpretation tells the
operations apart. -/
inductive BinaryOp
  | shift
  | other
  deriving DecidableEq, Repr

/-- A call of a `BytecodeClosure`. Branch destinations are bytecode indexes and
may lie outside the code. -/
inductive Instruction
  | pushInt | pushLong | pushFloat | pushDouble
  | pushObj (isNull : Bool)
  | loadLocal (kind : Kind) (index : Nat)
  | storeLocal (kind : Kind) (index : Nat)
  | incrementLocalInt (index : Nat)
  | arrayLength
  | loadArray (kind : Kind)
  | storeArray (kind : Kind)
  | nop | pop | pop2 | dup | dup2 | dupX1 | dup2X1 | dupX2 | dup2X2 | swap
  | neg (type : PrimitiveType)
  | binary (type : PrimitiveType) (op : BinaryOp)
  | convert (source target : PrimitiveType)
  | branchIf (isNullTest : Bool) (dest : Int)
  | branchIfIcmp (dest : Int)
  | branchIfAcmp (dest : Int)
  | compare (type : PrimitiveType)
  | branch (dest : Int)
  | returnOp (kind : Option Kind)
  | tableSwitch (defaultDest : Int) (dests : List Int)
  | lookupSwitch (defaultDest : Int) (pairs : List (Int × Int))
  | getField (index : Nat) | putField (index : Nat)
  | getStatic (index : Nat) | putStatic (index : Nat)
  | invokeInterface (index numOfArgs zeroByte : Nat)
  | invokeSpecial (index : Nat) | invokeStatic (index : Nat) | invokeVirtual (index : Nat)
  | throwException
  | newObject (index : Nat)
  | newBasicArray (type : Nat)
  | newObjectArray (index : Nat)
  | newMultiArray (index dim : Nat)
  | checkCast (index : Nat) | instanceOf (index : Nat)
  | monitorEnter | monitorExit
  | illegalCode
  deriving DecidableEq, Repr

/-! ## Operands -/

/-- `get_java_ushort(bci)`. -/
def javaUshort (code : Code) (bci : Nat) : Nat :=
  byteD code bci * 256 + byteD code (bci + 1)

/-- `get_java_short(bci)`. -/
def javaShort (code : Code) (bci : Nat) : Int :=
  (javaUshort code bci + 32768 : Int) % 65536 - 32768

/-- `branch_destination(bci)`. -/
def branchDestination (code : Code) (bci : Nat) : Int :=
  bci + javaShort code (bci + 1)

/-- `get_java_switch_int(bci)`. -/
def javaSwitchInt (code : Code) (bci : Nat) : Int :=
  toJint (nativeWord code bci)

/-- `local_op_types` and the first entries of `array_op_types`. -/
def localOpType : Nat → Kind
  | 0 => .primitive .int
  | 1 => .primitive .long
  | 2 => .primitive .float
  | 3 => .primitive .double
  | _ => .object

/-- `array_op_types`. -/
def arrayOpType : Nat → Kind
  | 5 => .primitive .byte
  | 6 => .primitive .char
  | 7 => .primitive .short
  | place => localOpType place

/-- The four arithmetic types in the order of the bytecodes. -/
def arithmeticType : Nat → PrimitiveType
  | 0 => .int
  | 1 => .long
  | 2 => .float
  | _ => .double

/-- `convert_op_types`. -/
def convertOpTypes : Nat → PrimitiveType × PrimitiveType
  | 0 => (.int, .long)
  | 1 => (.int, .float)
  | 2 => (.int, .double)
  | 3 => (.long, .int)
  | 4 => (.long, .float)
  | 5 => (.long, .double)
  | 6 => (.float, .int)
  | 7 => (.float, .long)
  | 8 => (.float, .double)
  | 9 => (.double, .int)
  | 10 => (.double, .long)
  | 11 => (.double, .float)
  | 12 => (.int, .byte)
  | 13 => (.int, .char)
  | _ => (.int, .short)

/-- `Method::iterate_push_constant_1`. -/
def pushConstant1 (constants : List Constant) (index : Nat) : Instruction :=
  match constants[index]? with
  | some .integer => .pushInt
  | some .float => .pushFloat
  | some .string => .pushObj false
  | _ => .illegalCode

/-- `Method::iterate_push_constant_2`. -/
def pushConstant2 (constants : List Constant) (index : Nat) : Instruction :=
  if index + 1 ≥ constants.length then
    .illegalCode
  else
    match constants[index]? with
    | some .long => .pushLong
    | some .double => .pushDouble
    | _ => .illegalCode

/-- The destinations of a `tableswitch`, after the default. -/
def tableDests (code : Code) (bci aligned count : Nat) : List Int :=
  (List.range count).map fun entry => bci + javaSwitchInt code (aligned + 12 + 4 * entry)

/-- The keys and destinations of a `lookupswitch`. -/
def lookupPairs (code : Code) (bci aligned count : Nat) : List (Int × Int) :=
  (List.range count).map fun entry =>
    (javaSwitchInt code (aligned + 8 + 8 * entry),
      bci + javaSwitchInt code (aligned + 12 + 8 * entry))

/-- The case of `wide`. -/
def decodeWide (code : Code) (bci : Nat) : Instruction :=
  let opcode := byteD code (bci + 1)
  if opcode = iinc then
    .incrementLocalInt (javaUshort code (bci + 2))
  else if iload ≤ opcode ∧ opcode ≤ aload then
    .loadLocal (localOpType (opcode - iload)) (javaUshort code (bci + 2))
  else if istore ≤ opcode ∧ opcode ≤ astore then
    .storeLocal (localOpType (opcode - istore)) (javaUshort code (bci + 2))
  else
    .illegalCode

/-- The switch of `Method::iterate_bytecode` for the bytecodes of class files.
The bytecodes private to the machine are refused: none of them is in code that
has just been checked. -/
def decode (code : Code) (constants : List Constant) (bci : Nat) : Instruction :=
  let opcode := byteD code bci
  let aligned := alignSizeUp (bci + 1)
  let index := javaUshort code (bci + 1)
  if opcode = 0 then .nop
  else if opcode = 1 then .pushObj true
  else if opcode ≤ 8 then .pushInt
  else if opcode ≤ 10 then .pushLong
  else if opcode ≤ 13 then .pushFloat
  else if opcode ≤ 15 then .pushDouble
  else if opcode ≤ 17 then .pushInt
  else if opcode = 18 then pushConstant1 constants (byteD code (bci + 1))
  else if opcode = 19 then pushConstant1 constants index
  else if opcode = 20 then pushConstant2 constants index
  else if opcode ≤ 25 then .loadLocal (localOpType (opcode - 21)) (byteD code (bci + 1))
  else if opcode ≤ 45 then .loadLocal (localOpType ((opcode - 26) / 4)) ((opcode - 26) % 4)
  else if opcode ≤ 53 then .loadArray (arrayOpType (opcode - 46))
  else if opcode ≤ 58 then .storeLocal (localOpType (opcode - 54)) (byteD code (bci + 1))
  else if opcode ≤ 78 then .storeLocal (localOpType ((opcode - 59) / 4)) ((opcode - 59) % 4)
  else if opcode ≤ 86 then .storeArray (arrayOpType (opcode - 79))
  else if opcode = 87 then .pop
  else if opcode = 88 then .pop2
  else if opcode = 89 then .dup
  else if opcode = 90 then .dupX1
  else if opcode = 91 then .dupX2
  else if opcode = 92 then .dup2
  else if opcode = 93 then .dup2X1
  else if opcode = 94 then .dup2X2
  else if opcode = 95 then .swap
  else if opcode ≤ 115 then .binary (arithmeticType ((opcode - 96) % 4)) .other
  else if opcode ≤ 119 then .neg (arithmeticType (opcode - 116))
  else if opcode ≤ 125 then .binary (arithmeticType ((opcode - 120) % 2)) .shift
  else if opcode ≤ 131 then .binary (arithmeticType ((opcode - 126) % 2)) .other
  else if opcode = 132 then .incrementLocalInt (byteD code (bci + 1))
  else if opcode ≤ 147 then
    .convert (convertOpTypes (opcode - 133)).1 (convertOpTypes (opcode - 133)).2
  else if opcode = 148 then .compare .long
  else if opcode ≤ 150 then .compare .float
  else if opcode ≤ 152 then .compare .double
  else if opcode ≤ 158 then .branchIf false (branchDestination code bci)
  else if opcode ≤ 164 then .branchIfIcmp (branchDestination code bci)
  else if opcode ≤ 166 then .branchIfAcmp (branchDestination code bci)
  else if opcode = 167 then .branch (branchDestination code bci)
  else if opcode ≤ 169 then .illegalCode
  else if opcode = tableswitch then
    let low := javaSwitchInt code (aligned + 4)
    let high := javaSwitchInt code (aligned + 8)
    .tableSwitch (bci + javaSwitchInt code aligned)
      (tableDests code bci aligned (high - low + 1).toNat)
  else if opcode = lookupswitch then
    .lookupSwitch (bci + javaSwitchInt code aligned)
      (lookupPairs code bci aligned (javaSwitchInt code (aligned + 4)).toNat)
  else if opcode ≤ 176 then .returnOp (some (localOpType (opcode - 172)))
  else if opcode = 177 then .returnOp none
  else if opcode = 178 then .getStatic index
  else if opcode = 179 then .putStatic index
  else if opcode = 180 then .getField index
  else if opcode = 181 then .putField index
  else if opcode = invokevirtual then .invokeVirtual index
  else if opcode = invokespecial then .invokeSpecial index
  else if opcode = invokestatic then .invokeStatic index
  else if opcode = invokeinterface then
    .invokeInterface index (byteD code (bci + 3)) (byteD code (bci + 4))
  else if opcode = 186 then .illegalCode
  else if opcode = newObject then .newObject index
  else if opcode = 188 then .newBasicArray (byteD code (bci + 1))
  else if opcode = 189 then .newObjectArray index
  else if opcode = 190 then .arrayLength
  else if opcode = 191 then .throwException
  else if opcode = 192 then .checkCast index
  else if opcode = 193 then .instanceOf index
  else if opcode = monitorenter then .monitorEnter
  else if opcode = monitorexit then .monitorExit
  else if opcode = wide then decodeWide code bci
  else if opcode = 197 then .newMultiArray index (byteD code (bci + 3))
  else if opcode = 198 ∨ opcode = 199 then .branchIf true (branchDestination code bci)
  else if opcode = 200 then .branch (bci + toJint (javaWord code (bci + 1)))
  else .illegalCode

end PicoJvm.Verifier
