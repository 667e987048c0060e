import PicoJvm.Dispatch.Klass
import Mathlib.Logic.Relation

/-!
# The classes of a ROM image

The class list as the ROM optimizer sees it, and the lists that applications may add
classes to later. An application names visible classes only.
-/

namespace PicoJvm.Romizer

open PicoJvm.Dispatch (Method findMethod)
open Relation (ReflTransGen TransGen)

/-- An `InstanceClass`, with the packages it belongs to. -/
structure Klass where
  isInterface : Bool
  isFinal : Bool
  isPublic : Bool
  inRestrictedPackage : Bool
  inHiddenPackage : Bool
  super : Option Nat
  localInterfaces : List Nat
  methods : List (Option Method)
  deriving DecidableEq, Repr

/-- `ROMOptimizer::is_hidden`. -/
def Klass.isHidden (klass : Klass) : Bool :=
  klass.inHiddenPackage || (!klass.isPublic && klass.inRestrictedPackage)

/-- `Universe::class_from_id`, for instance classes that are no fakes. -/
def classAt (classes : List (Option Klass)) (id : Nat) : Option Klass :=
  classes[id]?.join

/-- One class is the superclass of the other. -/
def IsSuper (classes : List (Option Klass)) (id super : Nat) : Prop :=
  ∃ klass, classAt classes id = some klass ∧ klass.super = some super

/-- A class or interface lists the other interface. -/
def Declares (classes : List (Option Klass)) (id interface : Nat) : Prop :=
  ∃ klass, classAt classes id = some klass ∧ interface ∈ klass.localInterfaces

/-- A final public method. -/
def IsFinalVirtual (method : Method) : Prop :=
  method.isFinal ∧ method.access = .isPublic ∧ method.isStatic = false

/-- The class list, with what the parser and the verifier have checked of each class. -/
structure ClassTable where
  classes : List (Option Klass)
  height : Nat → Nat
  superLegal : ∀ {id super klass},
    classAt classes id = some klass → klass.super = some super →
      height super < height id ∧
        ∃ superKlass, classAt classes super = some superKlass ∧
          superKlass.isInterface = false ∧ superKlass.isFinal = false
  interfacesLegal : ∀ {id interface klass},
    classAt classes id = some klass → interface ∈ klass.localInterfaces →
      height interface < height id ∧
        ∃ interfaceKlass, classAt classes interface = some interfaceKlass ∧
          interfaceKlass.isInterface = true
  /-- The superclass of an interface is `java.lang.Object`. -/
  interfaceSuper : ∀ {id super klass superKlass},
    classAt classes id = some klass → klass.isInterface = true → klass.super = some super →
      classAt classes super = some superKlass →
        superKlass.super = none ∧ superKlass.localInterfaces = []
  holders : ∀ {id klass method},
    classAt classes id = some klass → some method ∈ klass.methods → method.holder = id
  noInitializers : ∀ {id klass method},
    classAt classes id = some klass → klass.isInterface = true →
      some method ∈ klass.methods → method.isObjectInitializer = false
  /-- `check_not_final_override`. -/
  finalKept : ∀ {id super klass superKlass method other},
    TransGen (IsSuper classes) id super →
      classAt classes super = some superKlass → some method ∈ superKlass.methods →
        IsFinalVirtual method →
          classAt classes id = some klass → some other ∈ klass.methods →
            other.matches method.name method.signature → other.isStatic = true

namespace ClassTable

variable (table : ClassTable)

/-- What the class loader has of a class id. -/
abbrev klassAt (id : Nat) : Option Klass :=
  classAt table.classes id

/-! ## Lookup -/

/-- A class and its superclasses. -/
def chainFrom (classes : List (Option Klass)) : Nat → Nat → List Nat
  | 0, _ => []
  | fuel + 1, id =>
      match classAt classes id with
      | none => []
      | some klass =>
          id ::
            match klass.super with
            | none => []
            | some super => chainFrom classes fuel super

def chain (id : Nat) : List Nat :=
  chainFrom table.classes (table.height id + 1) id

/-- `InstanceClass::find_local_method`. -/
def findLocalMethod (id : Nat) (name signature : String) (nonStaticOnly : Bool) :
    Option Method :=
  (table.klassAt id).bind fun klass => findMethod name signature nonStaticOnly klass.methods

/-- The first class of the chain that has the method. -/
def searchChain (name signature : String) (nonStaticOnly : Bool) :
    List Nat → Option Method
  | [] => none
  | id :: rest =>
      match table.findLocalMethod id name signature nonStaticOnly with
      | some method => some method
      | none => searchChain name signature nonStaticOnly rest

/-- `InstanceClass::lookup_method`. No method has been removed yet, so its search of the
vtable finds nothing new. -/
def lookupMethod (id : Nat) (name signature : String) (nonStaticOnly : Bool) :
    Option Method :=
  table.searchChain name signature nonStaticOnly (table.chain id)

/-- `InstanceClass::lookup_method_in_all_interfaces`: the method and the id of the class
it was found in. -/
def lookupInAllInterfaces (name signature : String) : Nat → Nat → Option (Nat × Method)
  | 0, _ => none
  | fuel + 1, id =>
      match table.findLocalMethod id name signature false with
      | some method => some (id, method)
      | none =>
          match table.klassAt id with
          | none => none
          | some klass =>
              klass.localInterfaces.findSome? fun interface =>
                lookupInAllInterfaces name signature fuel interface

/-! ## Dispatch -/

/-- The method in the vtable slot of a public method, for the class at the head of the
chain. `needs_new_vtable_entry` lets public and protected methods share the slot. -/
def slotMethod (method : Method) : List Nat → Option Method
  | [] => none
  | id :: rest =>
      if id = method.holder then
        some method
      else
        match table.findLocalMethod id method.name method.signature true with
        | none => slotMethod method rest
        | some other =>
            if other.access = .isPublic ∨ other.access = .isProtected then
              some other
            else
              slotMethod method rest

/-- The method in the interface table of a class. The tables of concrete classes hold
public methods, and methods that throw in place of others. -/
def interfaceDispatch (receiver : Nat) (name signature : String) : Option Method :=
  (table.lookupMethod receiver name signature true).filter fun method =>
    decide (method.access = .isPublic)

/-! ## The hierarchy -/

/-- An interface that a class has, itself or through its superclasses and
superinterfaces. -/
def Implements (id interface : Nat) : Prop :=
  ∃ super, ReflTransGen (IsSuper table.classes) id super ∧
    ∃ declared, Declares table.classes super declared ∧
      ReflTransGen (Declares table.classes) declared interface

/-- A class or interface that an application may name. -/
def Visible (id : Nat) : Prop :=
  ∃ klass, table.klassAt id = some klass ∧ klass.isHidden = false

/-- Application classes have been added. What they extend and implement is their own or
visible. -/
structure ExtendedBy (extended : ClassTable) : Prop where
  added : ∃ applications, extended.classes = table.classes ++ applications
  superVisible : ∀ {id super},
    table.classes.length ≤ id → IsSuper extended.classes id super →
      super < table.classes.length → table.Visible super
  interfacesVisible : ∀ {id interface},
    table.classes.length ≤ id → Declares extended.classes id interface →
      interface < table.classes.length → table.Visible interface

end ClassTable

/-! ## Finding methods -/

theorem findMethod_some
    (name signature : String) (nonStaticOnly : Bool)
    (method : Method) (rest : List (Option Method)) :
    findMethod name signature nonStaticOnly (some method :: rest) =
      if method.matches name signature ∧ (nonStaticOnly = false ∨ method.isStatic = false) then
        some method
      else
        findMethod name signature nonStaticOnly rest :=
  rfl

theorem findMethod_mem
    {name signature : String} {nonStaticOnly : Bool} {methods : List (Option Method)}
    {method : Method}
    (found : findMethod name signature nonStaticOnly methods = some method) :
    some method ∈ methods ∧ method.matches name signature ∧
      (nonStaticOnly = false ∨ method.isStatic = false) := by
  induction methods with
  | nil =>
      cases found
  | cons head rest inductionHypothesis =>
      cases head with
      | none =>
          obtain ⟨member, facts⟩ := inductionHypothesis found
          exact ⟨List.mem_cons_of_mem _ member, facts⟩
      | some first =>
          rw [findMethod_some] at found
          split at found
          · rename_i fits
            cases found
            exact ⟨List.mem_cons_self, fits.1, fits.2⟩
          · obtain ⟨member, facts⟩ := inductionHypothesis found
            exact ⟨List.mem_cons_of_mem _ member, facts⟩

theorem findMethod_eq_none_iff
    {name signature : String} {nonStaticOnly : Bool} {methods : List (Option Method)} :
    findMethod name signature nonStaticOnly methods = none ↔
      ∀ method, some method ∈ methods → method.matches name signature →
        ¬ (nonStaticOnly = false ∨ method.isStatic = false) := by
  induction methods with
  | nil =>
      exact iff_of_true rfl nofun
  | cons head rest inductionHypothesis =>
      cases head with
      | none =>
          exact inductionHypothesis.trans (by simp)
      | some first =>
          rw [findMethod_some]
          split
          · rename_i fits
            constructor
            · intro found
              cases found
            · intro absent
              exact absurd fits.2 (absent first List.mem_cons_self fits.1)
          · rename_i misfit
            rw [inductionHypothesis]
            constructor
            · intro absent method member fits kind
              rcases List.mem_cons.mp member with isFirst | later
              · cases isFirst
                exact misfit ⟨fits, kind⟩
              · exact absent method later fits kind
            · intro absent method member
              exact absent method (List.mem_cons_of_mem _ member)

/-- Where the first method that fits is no static one, leaving out static methods makes
no difference. -/
theorem findMethod_nonStatic
    {name signature : String} {methods : List (Option Method)} {method : Method}
    (found : findMethod name signature false methods = some method)
    (isVirtual : method.isStatic = false) :
    findMethod name signature true methods = some method := by
  induction methods with
  | nil =>
      cases found
  | cons head rest inductionHypothesis =>
      cases head with
      | none =>
          exact inductionHypothesis found
      | some first =>
          rw [findMethod_some] at found ⊢
          by_cases fits : first.matches name signature = true
          · rw [if_pos ⟨fits, .inl rfl⟩] at found
            cases found
            rw [if_pos ⟨fits, .inr isVirtual⟩]
          · rw [if_neg (fun both => fits both.1)] at found ⊢
            exact inductionHypothesis found

end PicoJvm.Romizer
