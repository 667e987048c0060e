import PicoJvm.Bytecode.CodeBytes

/-!
# Types of the verifier

The symbols and constant-pool entries the verifier looks at, its stack-map
tags, and the method it is given. Class names are structured instead of being
encoded in symbols, so that the name of an array class says what it is an array
of.
-/

namespace PicoJvm.Verifier

open PicoJvm.CodeBytes

/-! ## Names, field types and signatures -/

/-- The primitive `BasicType`s. -/
inductive PrimitiveType
  | boolean | char | float | double | byte | short | int | long
  deriving DecidableEq, Repr

/-- The name of a class, as a symbol: an ordinary class, an array of a primitive
type, or an array of a reference type. -/
inductive ClassName
  | plain (name : String)
  | typeArray (element : PrimitiveType)
  | objArray (element : ClassName)
  deriving DecidableEq, Repr

/-- A field type: primitive, or the name of a class or array. -/
inductive FieldType
  | primitive (type : PrimitiveType)
  | reference (name : ClassName)
  deriving DecidableEq, Repr

/-- A method signature; no return type is `void`. -/
structure Signature where
  parameters : List FieldType
  returnType : Option FieldType
  deriving DecidableEq, Repr

/-- The `BasicType` argument of loads, stores and array accesses, where every
reference is `T_OBJECT`. -/
inductive Kind
  | primitive (type : PrimitiveType)
  | object
  deriving DecidableEq, Repr

/-- The kind a field type has on the stack. -/
def FieldType.kind : FieldType → Kind
  | .primitive type => .primitive type
  | .reference _ => .object

/-- Words a primitive value takes. -/
def PrimitiveType.words : PrimitiveType → Nat
  | .long | .double => 2
  | _ => 1

def Kind.words : Kind → Nat
  | .primitive type => type.words
  | .object => 1

/-- `Signature::parameter_word_size(true)`. -/
def Signature.parameterWordSize (signature : Signature) : Nat :=
  (signature.parameters.map fun type => type.kind.words).sum

def javaLangObject : ClassName := .plain "java/lang/Object"
def javaLangString : ClassName := .plain "java/lang/String"
def javaLangThrowable : ClassName := .plain "java/lang/Throwable"

/-- `Symbols::object_initializer_name()`. -/
def objectInitializerName : String := "<init>"

/-! ## Constant pool -/

/-- A constant-pool entry, with the names `resolve_helper` and
`name_of_klass_at` find for it. -/
inductive Constant
  | klass (name : ClassName)
  | field (holder : ClassName) (name : String) (type : FieldType)
  | method (holder : ClassName) (name : String) (signature : Signature)
  | interfaceMethod (holder : ClassName) (name : String) (signature : Signature)
  | integer
  | float
  | long
  | double
  | string
  | other
  deriving DecidableEq, Repr

/-! ## Stack-map types -/

/-- `StackMapKind`, with the tag `ENCODE_NEWOBJECT(bci)` of an object created by
the `new` at `bci`. -/
inductive Tag
  | bogus | integer | float | double | long | null | initObject | object
  | newObject (bci : Nat)
  | long2 | double2
  deriving DecidableEq, Repr

/-- One entry of the parallel tag and class arrays. The class may be left over
from earlier uses of the slot when the tag is not `object`. -/
structure Slot where
  tag : Tag
  klass : Option ClassName
  deriving DecidableEq, Repr

/-- A slot without a class. -/
def Slot.of (tag : Tag) : Slot := ⟨tag, none⟩

/-- An initialised object of the named class. -/
def Slot.object (name : ClassName) : Slot := ⟨.object, some name⟩

/-- The tag that stands for the first or only word of a primitive value. -/
def PrimitiveType.tag : PrimitiveType → Tag
  | .long => .long
  | .double => .double
  | .float => .float
  | _ => .integer

/-- The tags of a primitive value on the stack, top first. -/
def PrimitiveType.tags : PrimitiveType → List Tag
  | .long => [.long2, .long]
  | .double => [.double2, .double]
  | .float => [.float]
  | _ => [.integer]

/-- The tags under which a slot may hold a reference. -/
def Tag.isReference : Tag → Bool
  | .null | .initObject | .object | .newObject _ => true
  | _ => false

/-- A stack map of the class file; both lists are in index order, the stack from
its bottom. A class is given for the tag `object` only. -/
structure StackMap where
  bci : Nat
  locals : List Slot
  stack : List Slot
  deriving DecidableEq, Repr

/-- A row of the exception table; class index 0 catches everything. -/
structure Handler where
  startIndex : Nat
  endIndex : Nat
  handlerIndex : Nat
  classIndex : Nat
  deriving DecidableEq, Repr

/-! ## The method being verified -/

/-- What the verifier reads of a method. Its code has been rewritten to native
order. -/
structure Method where
  code : Code
  maxStack : Nat
  maxLocals : Nat
  isStatic : Bool
  isObjectInitializer : Bool
  holderIsObject : Bool
  signature : Signature
  constants : List Constant
  exceptionTable : List Handler
  stackmaps : List StackMap

/-- The questions the verifier puts to the system dictionary about the class of
the method. Resolving a class may throw, which is `none`. -/
structure ClassWorld where
  holderName : ClassName
  superName : Option ClassName
  /-- The part of `compute_is_subtype_of` that looks at loaded classes. -/
  isSubtype : ClassName → ClassName → Option Bool
  /-- `is_subclass_of(holder, name)`. -/
  isSubclassOfHolder : ClassName → Bool
  /-- `is_protected_access` for a constant-pool index. -/
  isProtectedAccess : Nat → Option Bool
  /-- The holder declares a field of that name and type. -/
  declaresField : String → FieldType → Bool
  /-- The named class is a subclass of `Throwable`. -/
  isThrowable : ClassName → Option Bool
  /-- `check_not_final_override` finds no overridden final method. -/
  overridesNoFinal : Bool

/-! ## Errors -/

/-- The `ErrorMsgTag`s of the verifier. `pendingException` stands for an
exception thrown while a class was being resolved. -/
inductive VerifyError
  | stackOverflow | stackUnderflow | stackBadType
  | localsOverflow | localsBadType
  | seqBadType | targetBadType
  | argsNotEnough
  | badInstr | badStackmap | badLookupswitch | badInitCall
  | expectArray | aastoreBadType | multianewarray
  | cpIndexOutOfBounds | expectClass | expectFieldref | expectMethodref
  | expectInvokespecial | expectNew | expectUninit | expectZero | expectThrowable
  | invokespecial | nargsMismatch
  | returnUninitThis | retvalBadType
  | fallThrough | finalMethodOverride | corruptedExceptionHandler
  | pendingException
  deriving DecidableEq, Repr

abbrev Check := Except VerifyError

end PicoJvm.Verifier
