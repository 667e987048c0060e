import PicoJvm.Interning.SymbolTable
import PicoJvm.Lib.Attempt

/-!
# The classes of the virtual machine

Class objects live in the heap and refer to each other; the class list gives each
of them an id of fourteen bits, in which type signatures name them. Symbols are
interned, so a symbol is written here as its bytes.
-/

namespace PicoJvm.Loading

/-- The bytes of a symbol. -/
abbrev Name := List UInt8

/-- The exceptions thrown here, and the failure of the check that nothing is read
behind the end of a string. -/
inductive Failure
  | classFormatError
  | classNotFound
  | outOfMemoryError
  | readPastEnd
  | unfinished
  deriving DecidableEq, Repr

/-- The three sorts of `JavaClass`. Other classes are referred to by their place in the
heap. -/
inductive Kind
  | instanceClass (fake : Bool)
  | typeArrayClass (type : UInt8)
  | objArrayClass (element : Nat)
  deriving DecidableEq, Repr

/-- `JavaClass`. -/
structure JavaClass where
  kind : Kind
  name : Option Name
  classId : Nat
  arrayClass : Option Nat
  next : Option Nat
  mirror : Bool
  deriving DecidableEq, Repr

instance : Inhabited JavaClass :=
  ⟨⟨.instanceClass true, none, 0, none, none, false⟩⟩

namespace JavaClass

/-- `is_instance_class`. -/
def isInstanceClass (klass : JavaClass) : Bool :=
  match klass.kind with
  | .instanceClass _ => true
  | _ => false

/-- `is_fake_class`. -/
def isFakeClass (klass : JavaClass) : Bool :=
  match klass.kind with
  | .instanceClass fake => fake
  | _ => false

end JavaClass

/-- The class of a symbol that is known to be a type. -/
inductive Near
  | fieldType
  | methodSignature
  deriving DecidableEq, Repr

/-- The class objects, the class list, the classes of the arrays of basic types, the heads
of the dictionary's buckets, and the symbols known to be types. The next `room` steps that
may allocate memory succeed. -/
structure Universe where
  objects : List JavaClass
  classList : List Nat
  typeArrayClasses : List Nat
  dictionary : List (Option Nat)
  nears : List (Name × Near)
  room : Nat
  deriving DecidableEq, Repr

/-- An operation of the virtual machine. -/
abbrev Operation := EStateM Failure Universe

namespace Universe

variable (state : Universe)

/-- The class object at a place in the heap. -/
def klass (object : Nat) : JavaClass :=
  state.objects.getD object default

/-- `Universe::class_from_id`. -/
def classFromId (classId : Nat) : Nat :=
  state.classList.getD classId 0

/-- A store to a class object. -/
def update (object : Nat) (change : JavaClass → JavaClass) : Universe :=
  { state with objects := state.objects.modify object change }

/-- `set_klass` on a symbol. -/
def setNear (name : Name) (near : Near) : Universe :=
  { state with nears := (name, near) :: state.nears }

end Universe

/-! ## Class ids in two bytes -/

/-- `TypeSymbol::encode_ushort` and `put_encoded_ushort`: seven bits to a byte, with the
highest bit set. -/
def encodeUshort (value : Nat) : List UInt8 :=
  [UInt8.ofNat (0x80 + value / 128 % 128), UInt8.ofNat (0x80 + value % 128)]

/-- `TypeSymbol::decode_ushort_at`. -/
def decodeUshortAt (bytes : Name) (index : Nat) : Nat :=
  (bytes.getD index 0).toNat % 128 * 128 + (bytes.getD (index + 1) 0).toNat % 128

/-! ## Allocation -/

/-- A step that may allocate memory. -/
def allocate : Operation Unit := do
  let state ← get
  match state.room with
  | 0 => throw .outOfMemoryError
  | room + 1 => set { state with room }

/-- `SymbolTable::symbol_for`. -/
def symbolFor (bytes : Name) : Operation Name :=
  if bytes.length > Interning.maxSymbolLength then
    throw .outOfMemoryError
  else do
    allocate
    return bytes

/-- `symbol_for`, and `set_klass` on its result. -/
def typeSymbolFor (bytes : Name) (near : Near) : Operation Name := do
  let symbol ← symbolFor bytes
  modify (Universe.setNear · symbol near)
  return symbol

/-- The greatest number of classes. -/
def maxClasses : Nat := 0x3fff

/-- `Universe::check_class_list_size`, with the allocations of a class object and of what
belongs to it. -/
def checkClassListSize : Operation Unit := do
  let state ← get
  if state.classList.length ≥ maxClasses then
    throw .outOfMemoryError
  else
    allocate

/-- `Universe::register_java_class` on a new class object. -/
def registerJavaClass (klass : JavaClass) : Operation Nat := do
  let state ← get
  let object := state.objects.length
  set { state with
    objects := state.objects ++ [{ klass with classId := state.classList.length }]
    classList := state.classList ++ [object] }
  return object

/-- `Universe::new_instance_class`. -/
def newInstanceClass (fake : Bool) (name : Name) : Operation Nat := do
  checkClassListSize
  registerJavaClass
    { kind := .instanceClass fake, name := some name, classId := 0, arrayClass := none,
      next := none, mirror := false }

/-! ## Array classes -/

/-- `JavaClass::setup_java_mirror`. -/
def setupJavaMirror (object : Nat) : Operation Unit := do
  allocate
  modify (Universe.update · object fun klass => { klass with mirror := true })

/-- `ObjArrayClass::compute_name`: the encoded class id. -/
def computeName (object : Nat) : Operation Unit := do
  let state ← get
  let name ← typeSymbolFor (encodeUshort (state.klass object).classId) .fieldType
  modify (Universe.update · object fun klass => { klass with name := some name })

/-- `Universe::new_obj_array_class`. -/
def newObjArrayClass (element : Nat) : Operation Nat := do
  checkClassListSize
  let object ← registerJavaClass
    { kind := .objArrayClass element, name := none, classId := 0, arrayClass := none,
      next := none, mirror := false }
  setupJavaMirror object
  computeName object
  return object

/-- The class of the arrays whose elements are of a class, made when it is first asked
for: the beginning of `JavaClass::get_array_class`, and
`ArrayClass::compute_higher_dimension`. -/
def higherDimension (object : Nat) : Operation Nat := do
  let state ← get
  match (state.klass object).arrayClass with
  | some array => return array
  | none => do
      let array ← newObjArrayClass object
      modify (Universe.update · object fun klass => { klass with arrayClass := some array })
      return array

/-- `get_array_class` of `ObjArrayClass` and of `TypeArrayClass`. -/
def getArrayClassOfArray (object : Nat) : Nat → Operation Nat
  | 0 => return object
  | 1 => return object
  | distance + 2 => do
      let array ← higherDimension object
      getArrayClassOfArray array (distance + 1)

/-- `JavaClass::get_array_class`, as an instance class has it. -/
def getArrayClass (object : Nat) (distance : Nat) : Operation Nat := do
  let array ← higherDimension object
  getArrayClassOfArray array distance

end PicoJvm.Loading
