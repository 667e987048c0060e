import PicoJvm.Dispatch.Klass

/-!
# Interface tables

The interfaces of the system, the size computed for an interface table while a
class is parsed, the table written when the class is linked, and the search
`invokeinterface` makes in it.
-/

namespace PicoJvm.Dispatch

/-! ## Interfaces -/

/-- The interfaces that have been loaded. An interface is loaded after its
superinterfaces, so their graph has no cycle; the parser admits no static method
but the static initialiser, and no two methods of one name and signature. -/
structure Interfaces where
  /-- The methods in the order of the class file. -/
  declared : Nat → List Method
  superinterfaces : Nat → List Nat
  depth : Nat → Nat
  deeper : ∀ interface, ∀ super ∈ superinterfaces interface, depth super < depth interface
  staticIsInitializer : ∀ interface, ∀ method ∈ declared interface,
    method.isStatic = method.isClassInitializer
  distinct : ∀ interface,
    ((declared interface).map fun method => (method.name, method.signature)).Nodup

/-- `InstanceClass::remove_clinit`. -/
def removeClinit : List (Option Method) → List (Option Method)
  | [] => []
  | none :: rest => none :: removeClinit rest
  | some method :: rest =>
      if method.isClassInitializer then
        none :: rest
      else
        some method :: removeClinit rest

@[simp]
theorem removeClinit_none (rest : List (Option Method)) :
    removeClinit (none :: rest) = none :: removeClinit rest :=
  rfl

theorem removeClinit_some (method : Method) (rest : List (Option Method)) :
    removeClinit (some method :: rest) =
      if method.isClassInitializer then none :: rest else some method :: removeClinit rest :=
  rfl

/-- `methods()` of an interface, before or after its static initialiser has run. -/
def Interfaces.methods (interfaces : Interfaces) (interface : Nat) (removed : Bool) :
    List (Option Method) :=
  let methods := (interfaces.declared interface).map some
  if removed then removeClinit methods else methods

/-- `Method::itable_index`. -/
def itableIndex (methods : List (Option Method)) (method : Method) : Nat :=
  methods.findIdx fun entry => decide (entry = some method)

/-! ## The size computed in advance -/

/-- `ClassInfo::itable_size`, in bytes. -/
def itableSize (interfaceCount methodCount : Nat) : Nat :=
  interfaceCount * 8 + methodCount * 4

/-- `compute_interface_size` over a list of interfaces: the interfaces that space is
reserved for. The first argument bounds the depth of the recursion. -/
def reservedInterfaces (interfaces : Interfaces) (inherited : List Nat) :
    Nat → List Nat → List Nat
  | 0, _ => []
  | fuel + 1, locals =>
      locals.flatMap fun interface =>
        if interface ∈ inherited then
          []
        else
          interface :: reservedInterfaces interfaces inherited fuel
            (interfaces.superinterfaces interface)

/-! ## The table -/

/-- A word of the method area: a method, null, or a method made to throw the error
of a broken one. -/
inductive Target
  | null
  | method (method : Method)
  | incompatible (interfaceMethod : Method)
  | illegal (interfaceMethod : Method)
  deriving DecidableEq, Repr

/-- The interface table of a class. An entry is a class id with the place of its
methods; both areas are written front to back. -/
structure Itable where
  entries : List (Nat × Nat)
  words : List Target
  deriving DecidableEq, Repr

def Itable.empty : Itable := ⟨[], []⟩

/-- The target `itable_copy_down` stores for a method of an interface. The methods
of an abstract class are not patched: no receiver has that class. -/
def targetFor (klasses : List Klass) (isAbstract : Bool) (interfaceMethod : Method) : Target :=
  match lookupMethod klasses interfaceMethod.name interfaceMethod.signature true with
  | none => if isAbstract then .null else .incompatible interfaceMethod
  | some method =>
      if isAbstract then .method method
      else if method.isStatic then .incompatible interfaceMethod
      else if method.access ≠ .isPublic then .illegal interfaceMethod
      else .method method

/-- The loop of `itable_copy_down`: the null of a removed method is skipped. -/
def copyMethods (klasses : List Klass) (isAbstract : Bool) :
    List (Option Method) → List Target
  | [] => []
  | none :: rest => copyMethods klasses isAbstract rest
  | some method :: rest =>
      targetFor klasses isAbstract method :: copyMethods klasses isAbstract rest

@[simp]
theorem copyMethods_none (klasses : List Klass) (isAbstract : Bool) (rest : List (Option Method)) :
    copyMethods klasses isAbstract (none :: rest) = copyMethods klasses isAbstract rest :=
  rfl

@[simp]
theorem copyMethods_some
    (klasses : List Klass) (isAbstract : Bool) (method : Method) (rest : List (Option Method)) :
    copyMethods klasses isAbstract (some method :: rest) =
      targetFor klasses isAbstract method :: copyMethods klasses isAbstract rest :=
  rfl

/-- `itable_copy_down`. -/
def itableCopyDown (interfaces : Interfaces) (klass : Klass) (supers : List Klass)
    (table : Itable) (interface : Nat) : Itable where
  entries := table.entries ++ [(interface, table.words.length)]
  words :=
    table.words ++
      copyMethods (klass :: supers) klass.isAbstract
        (interfaces.methods interface (decide (interface ∈ klass.initialisedInterfaces)))

/-- `update_local_itables`, for the interfaces that one interface or the class
declares. -/
def updateLocalItables (interfaces : Interfaces) (inherited : List Nat) (klass : Klass)
    (supers : List Klass) : Nat → List Nat → Itable → Itable
  | 0, _, table => table
  | fuel + 1, locals, table =>
      locals.foldl
        (fun table interface =>
          updateLocalItables interfaces inherited klass supers fuel
            (interfaces.superinterfaces interface)
            (if interface ∈ inherited then table
             else itableCopyDown interfaces klass supers table interface))
        table

/-- A bound for the recursion over some interfaces. -/
def Interfaces.bound (interfaces : Interfaces) (locals : List Nat) : Nat :=
  (locals.map interfaces.depth).sum + 1

/-- The interfaces in a table. -/
def Itable.interfaces (table : Itable) : List Nat :=
  table.entries.map Prod.fst

/-- `check_and_initialize_itable`, after the superclasses have been linked. A class
that declares to implement itself is refused. -/
def initializeItable (interfaces : Interfaces) : List Klass → Option Itable
  | [] => some .empty
  | klass :: supers =>
      match initializeItable interfaces supers with
      | none => none
      | some superTable =>
          if superTable.entries ≠ [] ∧ klass.classId ∈ klass.localInterfaces then
            none
          else
            some
              (updateLocalItables interfaces superTable.interfaces klass supers
                (interfaces.bound klass.localInterfaces) klass.localInterfaces
                (superTable.interfaces.foldl (itableCopyDown interfaces klass supers) .empty))

/-- `compute_itable_size`: the number of entries and the bytes reserved for a class. -/
def computeItableSize (interfaces : Interfaces) (klass : Klass) (superTable : Itable) :
    Nat × Nat :=
  let methodCount (ids : List Nat) : Nat :=
    (ids.map fun interface => (interfaces.declared interface).length).sum
  let inherited := superTable.interfaces
  let reserved := reservedInterfaces interfaces inherited
    (interfaces.bound klass.localInterfaces) klass.localInterfaces
  (inherited.length + reserved.length,
    itableSize inherited.length (methodCount inherited) +
      itableSize reserved.length (methodCount reserved))

/-! ## Dispatch -/

/-- The table of an interface: the words from its offset to the next table. -/
def Itable.tableOf (table : Itable) (interface : Nat) : List Target :=
  match table.entries.findIdx? fun entry => decide (entry.1 = interface) with
  | none => []
  | some place =>
      let start := (table.entries.getD place (0, 0)).2
      let stop := (table.entries.getD (place + 1) (0, table.words.length)).2
      (table.words.take stop).drop start

/-- `fast_invokeinterface`: the first entry with the class id, and the word at the
method index from its offset on. -/
def fastInvokeInterface (table : Itable) (classId methodIndex : Nat) : Option Target :=
  match table.entries.find? fun entry => decide (entry.1 = classId) with
  | none => none
  | some entry => table.words[entry.2 + methodIndex]?

end PicoJvm.Dispatch
