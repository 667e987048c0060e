import Mathlib.Algebra.GroupWithZero.Nat
import Mathlib.Data.List.Basic

/-!
# Classes and method lookup

The part of a linked class that dispatch looks at, and the lookups by name and
signature. A class is given together with its superclasses: the list begins with
the class and ends with `java.lang.Object`.
-/

namespace PicoJvm.Dispatch

/-- The access of a method. -/
inductive Access
  | isPrivate | packagePrivate | isProtected | isPublic
  deriving DecidableEq, Repr

/-- `Method`, as dispatch sees it. -/
structure Method where
  name : String
  signature : String
  access : Access
  isStatic : Bool
  isFinal : Bool
  /-- The class id of the holder. -/
  holder : Nat
  deriving DecidableEq, Repr

/-- `Method::match`. -/
def Method.matches (method : Method) (name signature : String) : Bool :=
  decide (method.name = name ∧ method.signature = signature)

/-- `Method::is_class_initializer`. -/
def Method.isClassInitializer (method : Method) : Bool :=
  method.matches "<clinit>" "()V"

/-- `Method::is_object_initializer`. -/
def Method.isObjectInitializer (method : Method) : Bool :=
  decide (method.name = "<init>")

/-- One class: its method array, in which removed methods have left a null, its
vtable, and the interfaces it declares. -/
structure Klass where
  classId : Nat
  className : String
  isAbstract : Bool
  isFinal : Bool
  methods : List (Option Method)
  vtable : List (Option Method)
  localInterfaces : List Nat
  /-- The interfaces whose static initialiser was gone when the class was linked. -/
  initialisedInterfaces : List Nat
  deriving DecidableEq, Repr

/-- `InstanceClass::find_method`. -/
def findMethod (name signature : String) (nonStaticOnly : Bool) :
    List (Option Method) → Option Method
  | [] => none
  | none :: rest => findMethod name signature nonStaticOnly rest
  | some method :: rest =>
      if method.matches name signature ∧ (nonStaticOnly = false ∨ method.isStatic = false) then
        some method
      else
        findMethod name signature nonStaticOnly rest

/-- The first part of `lookup_method`: the method found by walking up the
superclasses, and the classes from its holder on. -/
def searchSupers (name signature : String) (nonStaticOnly : Bool) :
    List Klass → Option (Method × List Klass)
  | [] => none
  | klass :: supers =>
      match findMethod name signature nonStaticOnly klass.methods with
      | some method => some (method, klass :: supers)
      | none => searchSupers name signature nonStaticOnly supers

/-- The class with a class id and its superclasses. -/
def fromClass (classId : Nat) (klasses : List Klass) : List Klass :=
  klasses.dropWhile fun klass => decide (klass.classId ≠ classId)

/-- The second part of `lookup_method`: a method of the vtable is taken over the
one found so far when its holder is a subclass of that one's holder. -/
def searchVtable (name signature : String) (klasses : List Klass) :
    List (Option Method) → Option Method → Option Method
  | [], found => found
  | none :: rest, found => searchVtable name signature klasses rest found
  | some method :: rest, found =>
      if found ≠ some method ∧ method.matches name signature then
        match found with
        | none => searchVtable name signature klasses rest (some method)
        | some previous =>
            if (fromClass method.holder klasses).any fun klass =>
                decide (klass.classId = previous.holder) then
              searchVtable name signature klasses rest (some method)
            else
              searchVtable name signature klasses rest found
      else
        searchVtable name signature klasses rest found

/-- `InstanceClass::lookup_method`. -/
def lookupMethod (klasses : List Klass) (name signature : String) (nonStaticOnly : Bool) :
    Option Method :=
  match klasses with
  | [] => none
  | klass :: _ =>
      match findMethod name signature nonStaticOnly klass.methods with
      | some method => some method
      | none =>
          searchVtable name signature klasses klass.vtable
            ((searchSupers name signature nonStaticOnly klasses).map Prod.fst)

end PicoJvm.Dispatch
