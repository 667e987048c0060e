import Mathlib.Data.Set.Card
import PicoJvm.Bytecode.CodeWalk
import PicoJvm.Lib.Bitmap

/-!
# Constants that two kinds of calls share

When a call is linked, the constant it names is overwritten with what the call needs. A constant
named by an `invokespecial` and by an `invokevirtual` would need both. The class file parser looks
for such constants in two bitmaps and gives each `invokespecial` a copy of its own.
-/

namespace PicoJvm.InvokeConflicts

open PicoJvm.Lib
open PicoJvm.Lib.Bitmap
open PicoJvm.Lib.Fallible
open PicoJvm.Bytecodes
open PicoJvm.CodeBytes
open PicoJvm.CheckBytecodes (Outcome checkBytecodes)
open PicoJvm.CodeWalk

/-! ## Methods, constants, classes -/

def fastInvokenative : Nat := 229

/-- A constant: its tag and its value. -/
structure Constant where
  tag : Nat
  value : BitVec 32
  deriving DecidableEq, Repr

/-- An entry of a new constant pool. -/
def invalidConstant : Constant :=
  ⟨0, 0⟩

abbrev ConstantPool := List Constant

/-- A method of a class. A miranda method keeps the constants of its interface. -/
structure Method where
  code : Code
  ownConstants : Bool
  deriving DecidableEq, Repr

/-- The class while it is being parsed. -/
structure InstanceClass where
  methods : List Method
  constants : ConstantPool
  deriving DecidableEq, Repr

/-- The code of a native, abstract or miranda method. -/
def IsNativeStub (code : Code) : Prop :=
  code.length = 8 ∧ byteD code 0 = fastInvokenative

instance (code : Code) : Decidable (IsNativeStub code) :=
  inferInstanceAs (Decidable (_ ∧ _))

/-- The code of a method when its class has been parsed. -/
inductive ParsedCode : Code → Prop
  | checked {method method' : CheckBytecodes.Method} :
      method.isNativeOrAbstract = false →
      checkBytecodes method = .accepted method' →
      ParsedCode method'.code
  | stub {code : Code} :
      IsNativeStub code →
      ParsedCode code

/-- A class whose methods and constants have been parsed. -/
structure ParsedClass extends InstanceClass where
  parsed : ∀ method ∈ methods, ParsedCode method.code
  mirandas : ∀ method ∈ methods, method.ownConstants = false → IsNativeStub method.code
  constantCount : constants.length < 65536

/-! ## What a constant names -/

/-- The class, the name and the signature of a method. A class that is not loaded is named by its
symbol, a loaded one by its id. -/
structure MethodReference where
  klass : Constant
  name : BitVec 32
  signature : BitVec 32
  deriving DecidableEq, Repr

/-- `extract_low_jushort_from_jint`. -/
def lowHalf (value : BitVec 32) : Nat :=
  value.toNat % 65536

/-- `extract_high_jushort_from_jint`. -/
def highHalf (value : BitVec 32) : Nat :=
  value.toNat / 65536

/-- A constant that is within bounds and has one of some tags. -/
def constantAt (cp : ConstantPool) (index : Nat) (tags : List Nat) : Option Constant :=
  cp[index]?.filter fun constant => constant.tag ∈ tags

/-- `resolve_helper_0`. The tags are those of the field and method references, of `NameAndType`, of
`Class` and `UnresolvedClass`, and of `Utf8`. -/
def methodReference (cp : ConstantPool) (index : Nat) : Option MethodReference := do
  let reference ← constantAt cp index [9, 10, 11]
  let nameAndType ← constantAt cp (highHalf reference.value) [12]
  let klass ← constantAt cp (lowHalf reference.value) [7, 13]
  let name ← constantAt cp (lowHalf nameAndType.value) [1]
  let signature ← constantAt cp (highHalf nameAndType.value) [1]
  return ⟨klass, name.value, signature.value⟩

/-! ## The source -/

/-- How the pass ends early. In the source nothing tells an access outside an array. -/
inductive ConflictFault
  | outsideArray
  | outOfMemory
  | unfinished
  | code (fault : Fault)
  deriving DecidableEq, Repr

/-- An access to an array of the heap. -/
def inArray {entry : Type} : Option entry → Except ConflictFault entry
  | some entry => .ok entry
  | none => .error .outsideArray

/-- An access to the code of a method. -/
def inCode {value : Type} : Except Fault value → Except ConflictFault value
  | .ok value => .ok value
  | .error fault => .error (.code fault)

/-- `get_java_ushort(bci)`. -/
def getJavaUshort (code : Code) (bci : Nat) : Except Fault Nat := do
  let high ← byteAt code bci
  let low ← byteAt code (bci + 1)
  return high * 256 + low

/-- `put_java_ushort(bci, value)`. -/
def putJavaUshort (code : Code) (bci value : Nat) : Code :=
  (code.set bci (UInt8.ofNat (value / 256))).set (bci + 1) (UInt8.ofNat value)

/-- `invoke_sp_ids` and `invoke_vi_ids`. -/
structure InvokeIds where
  special : Words
  virtual : Words

/-- The body of the loop of `fill_in_invoke_indexes`. -/
def fillInInvoke (code : Code) (bci opcode : Nat) (ids : InvokeIds) :
    Except ConflictFault InvokeIds :=
  if opcode = invokespecial then do
    let index ← inCode (getJavaUshort code (bci + 1))
    let special ← inArray (mark ids.special index)
    return { ids with special }
  else if opcode = invokevirtual then do
    let index ← inCode (getJavaUshort code (bci + 1))
    let virtual ← inArray (mark ids.virtual index)
    return { ids with virtual }
  else
    .ok ids

/-- The loop of `fill_in_invoke_indexes` over the code of one method. -/
def fillInCode (code : Code) : (fuel bci : Nat) → InvokeIds → Except ConflictFault InvokeIds
  | 0, _, _ => .error .unfinished
  | fuel + 1, bci, ids =>
      if bci < code.length - 2 then do
        let opcode ← inCode (byteAt code bci)
        let ids ← fillInInvoke code bci opcode ids
        let bci ← inCode (nextBci code bci)
        fillInCode code fuel bci ids
      else
        .ok ids

/-- `fill_in_invoke_indexes`. -/
def fillInInvokeIndexes : List Method → InvokeIds → Except ConflictFault InvokeIds
  | [], ids => .ok ids
  | method :: methods, ids => do
      let ids ← fillInCode method.code (method.code.length + 1) 0 ids
      fillInInvokeIndexes methods ids

/-- Which index is replaced by which. -/
abbrev RelocationMap := List (Nat × Nat)

/-- The loop that copies constants to their second index. -/
def copyConstants (oldCp : ConstantPool) :
    RelocationMap → ConstantPool → Except ConflictFault ConstantPool
  | [], newCp => .ok newCp
  | (oldOffset, newOffset) :: rest, newCp => do
      let constant ← inArray oldCp[oldOffset]?
      let _ ← inArray newCp[newOffset]?
      copyConstants oldCp rest (newCp.set newOffset constant)

/-- The constants of `new_cp`. -/
def cloneConstants (oldCp : ConstantPool) (relocationMap : RelocationMap) :
    Except ConflictFault ConstantPool :=
  copyConstants oldCp relocationMap
    (oldCp ++ List.replicate relocationMap.length invalidConstant)

/-- The inner loop over the relocation map, for the instruction at `bci`. -/
def relocateOperand (relocationMap : RelocationMap) (code : Code) (bci cpIndex : Nat) : Code :=
  relocationMap.foldl
    (fun code entry =>
      if entry.1 = cpIndex then putJavaUshort code (bci + 1) entry.2 else code)
    code

/-- The body of the loop over the code of one method. -/
def relocateInvoke (relocationMap : RelocationMap) (code : Code) (bci opcode : Nat) :
    Except ConflictFault Code :=
  if opcode = invokespecial then do
    let cpIndex ← inCode (getJavaUshort code (bci + 1))
    return relocateOperand relocationMap code bci cpIndex
  else
    .ok code

/-- The loop over the code of one method. -/
def relocateCode (relocationMap : RelocationMap) :
    (fuel bci : Nat) → Code → Except ConflictFault Code
  | 0, _, _ => .error .unfinished
  | fuel + 1, bci, code =>
      if bci < code.length then do
        let opcode ← inCode (byteAt code bci)
        let code ← relocateInvoke relocationMap code bci opcode
        let bci ← inCode (nextBci code bci)
        relocateCode relocationMap fuel bci code
      else
        .ok code

/-- The loop over the methods: those with other constants are left alone. -/
def relocateMethods (relocationMap : RelocationMap) :
    List Method → Except ConflictFault (List Method)
  | [] => .ok []
  | method :: methods => do
      let code ←
        if method.ownConstants then
          relocateCode relocationMap (method.code.length + 1) 0 method.code
        else
          pure method.code
      let methods ← relocateMethods relocationMap methods
      return { method with code } :: methods

/-- `clone_invoke_special_virtual_conflicts`, and the class with the new constants. -/
def cloneInvokeSpecialVirtualConflicts (cls : InstanceClass) (relocationMap : RelocationMap) :
    Except ConflictFault InstanceClass := do
  let constants ← cloneConstants cls.constants relocationMap
  let methods ← relocateMethods relocationMap cls.methods
  return { methods, constants }

/-- `resolve_invoke_special_virtual_conflicts`. -/
def resolveInvokeSpecialVirtualConflicts (cls : InstanceClass) :
    Except ConflictFault InstanceClass := do
  let cpLength := cls.constants.length
  let bitmapLength := cpLength / 32 + 1
  let ids ← fillInInvokeIndexes cls.methods
    ⟨List.replicate bitmapLength 0, List.replicate bitmapLength 0⟩
  let collisions := members (both ids.special ids.virtual)
  if collisions.length = 0 then
    .ok cls
  else if collisions.length + cpLength > 65535 then
    .error .outOfMemory
  else
    cloneInvokeSpecialVirtualConflicts cls (collisions.zipIdx cpLength)

end PicoJvm.InvokeConflicts
