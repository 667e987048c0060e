import PicoJvm.Dispatch.Klass

/-!
# Method tables and vtables

How a class gets its method table and its vtable when it is loaded, how the ROM optimizer
renames methods and then takes methods out of the tables, and the lookup of a method. A class is
given together with its superclasses: the list begins with the class and ends with
`java.lang.Object`. Entries that are null are left out of tables and vtables.
-/

namespace PicoJvm.Compaction

open PicoJvm.Dispatch (Access)

/-! ## Classes -/

/-- `Method`, as the lookup and the ROM optimizer see it. -/
structure Method where
  originalName : String
  signature : String
  isRenamed : Bool
  access : Access
  isStatic : Bool
  isFinal : Bool
  isNative : Bool
  /-- The class id of the holder. -/
  holder : Nat
  /-- The class that the method was made for; the holder of a miranda method is its interface. -/
  table : Nat
  deriving DecidableEq, Repr

/-- `Symbols::unknown`. -/
def unknown : String := ".unknown."

/-- The name of a method; a renamed one has lost its own. -/
def Method.name (method : Method) : String :=
  if method.isRenamed then unknown else method.originalName

/-- `Method::match`. -/
def Method.matches (method : Method) (name signature : String) : Bool :=
  decide (method.name = name ∧ method.signature = signature)

/-- `is_object_initializer`. -/
def Method.isObjectInitializer (method : Method) : Bool :=
  decide (method.name = "<init>")

/-- A class that is no interface. -/
structure Klass where
  classId : Nat
  originalName : String
  isRenamed : Bool
  package : String
  methods : List Method
  vtable : List Method
  deriving DecidableEq, Repr

def Klass.name (klass : Klass) : String :=
  if klass.isRenamed then unknown else klass.originalName

structure Interface where
  originalName : String
  isRenamed : Bool
  package : String
  methods : List Method
  vtable : List Method
  deriving DecidableEq, Repr

def Interface.name (interface : Interface) : String :=
  if interface.isRenamed then unknown else interface.originalName

/-- The vtable of a superclass; nothing when there is none. -/
def superVtable : List Klass → List Method
  | [] => []
  | super :: _ => super.vtable

/-! ## Looking up -/

/-- `InstanceClass::find_method`. -/
def findMethod (name signature : String) (methods : List Method) : Option Method :=
  methods.find? (·.matches name signature)

/-- The first part of `lookup_method`: the method in the nearest table, and the id of the class
whose table it is. -/
def searchTables (name signature : String) : List Klass → Option (Method × Nat)
  | [] => none
  | klass :: supers =>
      match findMethod name signature klass.methods with
      | some method => some (method, klass.classId)
      | none => searchTables name signature supers

/-- The ids of a holder and its superclasses. A holder that is none of the classes is an
interface, whose superclass is `java.lang.Object`. -/
def supersOf (klasses : List Klass) (holder : Nat) : List Nat :=
  if holder ∈ klasses.map Klass.classId then
    (klasses.dropWhile fun klass => decide (klass.classId ≠ holder)).map Klass.classId
  else
    holder :: (klasses.getLast?.map Klass.classId).toList

/-- The second part of `lookup_method`: `m` and `m_holder` after the loop over a vtable. -/
def searchVtable (klasses : List Klass) (name signature : String) :
    List Method → Option (Method × Nat) → Option (Method × Nat)
  | [], found => found
  | method :: rest, found =>
      if found.map Prod.fst ≠ some method ∧ method.matches name signature then
        match found with
        | none => searchVtable klasses name signature rest (some (method, method.holder))
        | some (_, holder) =>
            if holder ∈ supersOf klasses method.holder then
              searchVtable klasses name signature rest (some (method, method.holder))
            else
              searchVtable klasses name signature rest found
      else
        searchVtable klasses name signature rest found

/-- `InstanceClass::lookup_method`. -/
def lookupMethod (klasses : List Klass) (name signature : String) : Option Method :=
  match klasses with
  | [] => none
  | klass :: _ =>
      match searchTables name signature klasses with
      | some (method, holder) =>
          if holder = klass.classId then
            some method
          else
            (searchVtable klasses name signature klass.vtable (some (method, holder))).map Prod.fst
      | none => (searchVtable klasses name signature klass.vtable none).map Prod.fst

/-! ## Loading -/

/-- What the parser has read of a class, with the interfaces that `found_all_interfaces`
collected. -/
structure ClassFile where
  classId : Nat
  name : String
  package : String
  isFinal : Bool
  isAbstract : Bool
  methods : List Method
  superInterfaces : List Nat
  deriving DecidableEq, Repr

/-- `ClassFileParser::new_lazy_error_method`. -/
def newLazyErrorMethod (classId : Nat) (method : Method) : Method :=
  { method with isNative := true, table := classId }

section Loading

variable (interfaces : Nat → Interface)

/-- A method of an interface is a miranda method of a class. -/
def isMiranda (supers : List Klass) (methods : List Method) (earlier : List Nat)
    (method : Method) : Bool :=
  !method.isStatic &&
    !(methods.any (·.matches method.name method.signature)) &&
    !((superVtable supers).any fun other =>
      other.matches method.name method.signature && decide (other.access = .isPublic)) &&
    !(supers.any fun super => super.methods.any fun other =>
      other.matches method.name method.signature && other.isFinal) &&
    !(earlier.any fun interface =>
      (interfaces interface).methods.any (·.matches method.name method.signature))

/-- The miranda methods for the interfaces from one on. -/
def mirandaMethods (classId : Nat) (supers : List Klass) (methods : List Method) :
    List Nat → List Nat → List Method
  | _, [] => []
  | earlier, interface :: rest =>
      ((interfaces interface).methods.filter (isMiranda interfaces supers methods earlier)).map
          (newLazyErrorMethod classId) ++
        mirandaMethods classId supers methods (earlier ++ [interface]) rest

/-- `InstanceClass::add_miranda_methods`, for an abstract class with a superclass. -/
def addMirandaMethods (file : ClassFile) (supers : List Klass) : List Method :=
  if file.isAbstract && !supers.isEmpty then
    file.methods ++ mirandaMethods interfaces file.classId supers file.methods [] file.superInterfaces
  else
    file.methods

/-- `JavaClass::AccessType`. -/
inductive AccessType
  | accPrivate
  | accPackagePrivate
  | accPublicProtected
  deriving DecidableEq, Repr

def AccessType.max : AccessType → AccessType → AccessType
  | .accPublicProtected, _ => .accPublicProtected
  | _, .accPublicProtected => .accPublicProtected
  | .accPackagePrivate, _ => .accPackagePrivate
  | _, .accPackagePrivate => .accPackagePrivate
  | .accPrivate, .accPrivate => .accPrivate

/-- `JavaClass::vtable_accessibility_at`. -/
def vtableAccessibilityAt (index : Nat) : List Klass → AccessType
  | [] => .accPrivate
  | klass :: supers =>
      match klass.vtable[index]? with
      | none => .accPrivate
      | some method =>
          match method.access with
          | .isPublic => .accPublicProtected
          | .isProtected => .accPublicProtected
          | .packagePrivate => AccessType.max .accPackagePrivate (vtableAccessibilityAt index supers)
          | .isPrivate => AccessType.max .accPrivate (vtableAccessibilityAt index supers)

/-- The package of the class or interface with an id. -/
def packageOf (supers : List Klass) (id : Nat) : String :=
  match supers.find? (fun klass => decide (klass.classId = id)) with
  | some klass => klass.package
  | none => (interfaces id).package

/-- A method of a class takes an entry of the vtable of the superclass. -/
def overridesAt (supers : List Klass) (package : String) (method : Method) (index : Nat) : Bool :=
  match (superVtable supers)[index]? with
  | none => false
  | some other =>
      let samePackage := decide (packageOf interfaces supers other.holder = package)
      !method.isStatic && !method.isObjectInitializer && decide (method.access ≠ .isPrivate) &&
        other.matches method.name method.signature &&
        match other.access with
        | .isPrivate => false
        | .packagePrivate =>
            samePackage &&
              match vtableAccessibilityAt index supers with
              | .accPublicProtected =>
                  decide (method.access = .isPublic ∨ method.access = .isProtected)
              | .accPackagePrivate => true
              | .accPrivate => false
        | .isProtected | .isPublic =>
            match vtableAccessibilityAt index supers with
            | .accPublicProtected =>
                decide (method.access = .isPublic ∨ method.access = .isProtected)
            | .accPackagePrivate => samePackage
            | .accPrivate => false

/-- `InstanceClass::needs_new_vtable_entry`. -/
def needsNewVtableEntry (supers : List Klass) (package : String) (classIsFinal : Bool)
    (method : Method) : Bool :=
  if method.isStatic || method.isObjectInitializer then
    false
  else
    let allocateNew := !(classIsFinal || method.isFinal)
    if supers.isEmpty then
      allocateNew
    else if method.access = .isPrivate then
      allocateNew
    else
      allocateNew && !((List.range (superVtable supers).length).any
        (overridesAt interfaces supers package method))

/-- One method in `update_vtable`: it takes the entries that it overrides, and maybe a new one. -/
def updateEntries (supers : List Klass) (package : String) (classIsFinal : Bool)
    (vtable : List Method) (method : Method) : List Method :=
  let vtable := vtable.mapIdx fun index entry =>
    if overridesAt interfaces supers package method index then method else entry
  if needsNewVtableEntry interfaces supers package classIsFinal method then
    vtable ++ [method]
  else
    vtable

/-- `InstanceClass::update_vtable`. -/
def updateVtable (supers : List Klass) (package : String) (classIsFinal : Bool)
    (methods : List Method) : List Method :=
  methods.foldl (updateEntries interfaces supers package classIsFinal) (superVtable supers)

/-- The class that the parser makes. -/
def loadClass (file : ClassFile) (supers : List Klass) : Klass :=
  let methods := addMirandaMethods interfaces file supers
  { classId := file.classId
    originalName := file.name
    isRenamed := false
    package := file.package
    methods
    vtable := updateVtable interfaces supers file.package file.isFinal methods }

end Loading

/-! ## Compaction -/

/-- `ROMOptimizer::is_special_method`; `builtin` are the methods that the virtual machine itself
calls, which depend on its build. -/
def isSpecialMethod (builtin : Method → Bool) (holderName : String) (method : Method) : Bool :=
  decide (method.name = "finalize") || decide (method.name = "internalExit") ||
    decide (method.name = "<clinit>") ||
    (decide (holderName = "java/lang/Class") && decide (method.name = "initialize")) ||
    (decide (method.name = "main") && decide (method.signature = "([Ljava/lang/String;)V")) ||
    decide (method.name = "createAppImage") || decide (method.name = "createSysImage") ||
    builtin method

section Compacting

variable (builtin : Method → Bool) (interfaces : Nat → Interface)

/-- The name, the methods and the vtable of the holder of a method in the table of a class. -/
def holderOf (klass : Klass) (method : Method) : String × List Method × List Method :=
  if method.holder = klass.classId then
    (klass.name, klass.methods, klass.vtable)
  else
    ((interfaces method.holder).name, (interfaces method.holder).methods,
      (interfaces method.holder).vtable)

/-- `Method::is_overloaded`. -/
def isOverloaded (klass : Klass) (method : Method) : Bool :=
  let (_, methods, vtable) := holderOf interfaces klass method
  (methods ++ vtable).any fun other =>
    decide (other ≠ method ∧ other.originalName = method.originalName)

/-- `Method::vtable_index`, as far as there is one. -/
def hasVtableIndex (klass : Klass) (method : Method) : Bool :=
  let (_, _, vtable) := holderOf interfaces klass method
  decide (method ∈ vtable)

/-- `ROMOptimizer::is_method_removable_from_table`. -/
def isMethodRemovableFromTable (klass : Klass) (method : Method) : Bool :=
  if method.isNative && isOverloaded interfaces klass method then
    false
  else if unknown = method.name then
    true
  else if hasVtableIndex interfaces klass method then
    true
  else
    decide (unknown = klass.name) &&
      !isSpecialMethod builtin (holderOf interfaces klass method).1 method

/-- `ROMOptimizer::compact_method_table`. -/
def compactMethodTable (klass : Klass) : Klass :=
  { klass with
    methods := klass.methods.filter fun method =>
      !isMethodRemovableFromTable builtin interfaces klass method }

/-- `ROMOptimizer::compact_method_tables`, for a class and its superclasses. -/
def compactMethodTables (klasses : List Klass) : List Klass :=
  klasses.map (compactMethodTable builtin interfaces)

end Compacting

/-! ## Renaming -/

section Renaming

variable (methods : Method → Bool) (classes : Nat → Bool)

/-- A method loses its name when it is chosen. -/
def Method.rename (method : Method) : Method :=
  { method with isRenamed := method.isRenamed || methods method }

def Klass.rename (klass : Klass) : Klass :=
  { klass with
    isRenamed := klass.isRenamed || classes klass.classId
    methods := klass.methods.map (Method.rename methods)
    vtable := klass.vtable.map (Method.rename methods) }

def Interface.rename (id : Nat) (interface : Interface) : Interface :=
  { interface with
    isRenamed := interface.isRenamed || classes id
    methods := interface.methods.map (Method.rename methods)
    vtable := interface.vtable.map (Method.rename methods) }

end Renaming

end PicoJvm.Compaction
