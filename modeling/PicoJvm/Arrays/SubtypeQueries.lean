import Mathlib.Data.List.Forall2
import Mathlib.Logic.Relation
import PicoJvm.Arrays.Subtyping

/-!
# Queries of the subtype check

The classes as they are declared, what loading lays down of them for the subtype check, and any
sequence of checks, which answer as the subtype relation of the language does.
-/

namespace PicoJvm.Arrays

/-! ## Declared classes -/

/-- The classes with what they declare. A class is loaded after its superclass and its interfaces.
The parser refuses a superclass that is an interface and an interface that is none, and above an
interface there is only `java.lang.Object`. -/
structure ClassGraph where
  objectClass : Nat
  superOf : Nat → Option Nat
  localInterfaces : Nat → List Nat
  isInterface : Nat → Bool
  /-- The order of loading. -/
  loaded : Nat → Nat
  super_loaded : ∀ {id super}, superOf id = some super → loaded super < loaded id
  interface_loaded : ∀ {id interface}, interface ∈ localInterfaces id →
    loaded interface < loaded id
  super_none : ∀ {id}, superOf id = none ↔ id = objectClass
  super_class : ∀ {id super}, superOf id = some super → isInterface super = false
  interface_interface : ∀ {id interface}, interface ∈ localInterfaces id →
    isInterface interface = true
  interface_super : ∀ {interface}, isInterface interface = true →
    superOf interface = some objectClass
  object_interfaces : localInterfaces objectClass = []

namespace ClassGraph

variable (graph : ClassGraph)

/-- What the language calls a direct supertype. -/
inductive DirectSupertype : Klass → Klass → Prop
  | super {id super : Nat}
      (isSuper : graph.superOf id = some super) :
      DirectSupertype (.instanceClass id) (.instanceClass super)
  | interface {id interface : Nat}
      (isInterface : interface ∈ graph.localInterfaces id) :
      DirectSupertype (.instanceClass id) (.instanceClass interface)
  | typeArray (type : BasicType) :
      DirectSupertype (.typeArray type) (.instanceClass graph.objectClass)
  | objArray (element : Klass) :
      DirectSupertype (.objArray element) (.instanceClass graph.objectClass)
  | element {element super : Klass}
      (isSuper : DirectSupertype element super) :
      DirectSupertype (.objArray element) (.objArray super)

/-- The subtype relation of the language. -/
def JavaSubtype : Klass → Klass → Prop :=
  Relation.ReflTransGen graph.DirectSupertype

/-! ## What loading lays down -/

/-- The classes that the loop of `is_subclass_of` comes to, as far as the fuel lasts. -/
def superChain : Nat → Nat → List Nat
  | 0, _ => []
  | fuel + 1, current =>
      match graph.superOf current with
      | none => [current]
      | some super => current :: superChain fuel super

/-- A class and its superclasses. -/
def supers (id : Nat) : List Nat :=
  graph.superChain (graph.loaded id + 1) id

/-- `update_local_itables`, for the interfaces that it puts into the table. -/
def updateLocalItables (inherited : List Nat) : Nat → Nat → List Nat → List Nat
  | 0, _, entries => entries
  | fuel + 1, intf, entries =>
      (graph.localInterfaces intf).foldl
        (fun entries superIntf =>
          updateLocalItables inherited fuel superIntf
            (if superIntf ∈ inherited then entries else entries ++ [superIntf]))
        entries

/-- The interfaces of the table that `check_and_initialize_itable` makes: those of the superclass,
then those of the class. -/
def itableOf : Nat → Nat → List Nat
  | 0, _ => []
  | fuel + 1, id =>
      let inherited :=
        match graph.superOf id with
        | none => []
        | some super => itableOf fuel super
      graph.updateLocalItables inherited (graph.loaded id + 1) id inherited

def itable (id : Nat) : List Nat :=
  graph.itableOf (graph.loaded id + 1) id

/-! ## Superclasses -/

variable {graph}

theorem superChain_eq
    {fuel id : Nat}
    (enough : graph.loaded id < fuel) :
    graph.superChain fuel id = graph.supers id := by
  induction fuel using Nat.strongRecOn generalizing id with
  | _ fuel inductionHypothesis =>
      obtain ⟨fuel, rfl⟩ := Nat.exists_eq_add_one_of_ne_zero (Nat.ne_zero_of_lt enough)
      rw [supers, superChain, superChain]
      cases isSuper : graph.superOf id with
      | none => rfl
      | some super =>
          have earlier := graph.super_loaded isSuper
          have first := inductionHypothesis fuel (Nat.lt_succ_self _)
            (show graph.loaded super < fuel by omega)
          by_cases same : fuel = graph.loaded id
          · rw [same]
          · have second := inductionHypothesis (graph.loaded id) (by omega) earlier
            simp only [first, second]

theorem supers_eq (id : Nat) :
    graph.supers id =
      match graph.superOf id with
      | none => [id]
      | some super => id :: graph.supers super := by
  rw [supers, superChain]
  cases isSuper : graph.superOf id with
  | none => rfl
  | some super => simp only [superChain_eq (graph.super_loaded isSuper)]

theorem supers_none {id : Nat} (isSuper : graph.superOf id = none) : graph.supers id = [id] := by
  rw [supers_eq, isSuper]

theorem supers_some
    {id super : Nat}
    (isSuper : graph.superOf id = some super) :
    graph.supers id = id :: graph.supers super := by
  rw [supers_eq, isSuper]

/-- A property of the superclass of each class holds of each class. -/
theorem super_induction
    {motive : Nat → Prop}
    (root : ∀ id, graph.superOf id = none → motive id)
    (step : ∀ id super, graph.superOf id = some super → motive super → motive id)
    (id : Nat) :
    motive id := by
  induction isLoaded : graph.loaded id using Nat.strongRecOn generalizing id with
  | _ loaded inductionHypothesis =>
      cases isSuper : graph.superOf id with
      | none => exact root id isSuper
      | some super =>
          have earlier := graph.super_loaded isSuper
          exact step id super isSuper (inductionHypothesis _ (isLoaded ▸ earlier) super rfl)

theorem supers_self (id : Nat) : id ∈ graph.supers id := by
  cases isSuper : graph.superOf id with
  | none => simp [supers_none isSuper]
  | some super => simp [supers_some isSuper]

theorem supers_closed
    {id super above : Nat}
    (isSuper : super ∈ graph.supers id)
    (isAbove : above ∈ graph.supers super) :
    above ∈ graph.supers id := by
  induction id using graph.super_induction with
  | root id isRoot =>
      rw [supers_none isRoot, List.mem_singleton] at isSuper
      rw [← isSuper]
      exact isAbove
  | step id next isNext inductionHypothesis =>
      rw [supers_some isNext, List.mem_cons] at isSuper
      rcases isSuper with rfl | later
      · exact isAbove
      · rw [supers_some isNext]
        exact List.mem_cons_of_mem _ (inductionHypothesis later)

/-- Every class has the root among its superclasses. -/
theorem object_mem_supers (id : Nat) : graph.objectClass ∈ graph.supers id := by
  induction id using graph.super_induction with
  | root id isRoot =>
      rw [supers_none isRoot, graph.super_none.mp isRoot]
      exact List.mem_singleton_self _
  | step id next isNext inductionHypothesis =>
      rw [supers_some isNext]
      exact List.mem_cons_of_mem _ inductionHypothesis

theorem superOf_object : graph.superOf graph.objectClass = none :=
  graph.super_none.mpr rfl

theorem supers_object : graph.supers graph.objectClass = [graph.objectClass] :=
  supers_none superOf_object

theorem isInterface_object : graph.isInterface graph.objectClass = false := by
  cases isInterface : graph.isInterface graph.objectClass with
  | false => rfl
  | true =>
      have isSuper := graph.interface_super isInterface
      rw [superOf_object] at isSuper
      cases isSuper

/-! ## Interfaces of the table -/

variable (graph) in
/-- An interface is declared by a class or an interface. -/
def Declares (id interface : Nat) : Prop :=
  interface ∈ graph.localInterfaces id

/-- The recursion puts in what is declared, directly or by an interface, unless it is inherited. -/
theorem mem_updateLocalItables
    {inherited entries : List Nat} {fuel intf interface : Nat}
    (enough : graph.loaded intf < fuel) :
    interface ∈ graph.updateLocalItables inherited fuel intf entries ↔
      interface ∈ entries ∨
        interface ∉ inherited ∧ Relation.TransGen graph.Declares intf interface := by
  induction fuel generalizing intf entries with
  | zero => exact absurd enough (Nat.not_lt_zero _)
  | succ fuel inductionHypothesis =>
      rw [updateLocalItables]
      have loop : ∀ (locals entries : List Nat),
          (∀ superIntf ∈ locals, superIntf ∈ graph.localInterfaces intf) →
          (interface ∈ locals.foldl
            (fun entries superIntf =>
              graph.updateLocalItables inherited fuel superIntf
                (if superIntf ∈ inherited then entries else entries ++ [superIntf])) entries ↔
            interface ∈ entries ∨ interface ∉ inherited ∧
              ∃ superIntf ∈ locals, Relation.ReflTransGen graph.Declares superIntf interface) := by
        intro locals
        induction locals with
        | nil => simp
        | cons first rest loopHypothesis =>
            intro entries areLocal
            obtain ⟨firstLocal, restLocal⟩ := List.forall_mem_cons.mp areLocal
            have earlier : graph.loaded first < fuel := by
              have := graph.interface_loaded firstLocal
              omega
            rw [List.foldl_cons, loopHypothesis _ restLocal, inductionHypothesis earlier]
            have here : interface ∈ (if first ∈ inherited then entries else entries ++ [first]) ↔
                interface ∈ entries ∨ interface ∉ inherited ∧ interface = first := by
              split
              · next isInherited =>
                  constructor
                  · exact Or.inl
                  · rintro (listed | ⟨notInherited, rfl⟩)
                    · exact listed
                    · exact absurd isInherited notInherited
              · next notInherited =>
                  rw [List.mem_append, List.mem_singleton]
                  constructor
                  · rintro (listed | rfl)
                    · exact Or.inl listed
                    · exact Or.inr ⟨notInherited, rfl⟩
                  · exact Or.imp_right And.right
            rw [here]
            simp only [List.mem_cons, exists_eq_or_imp]
            rw [Relation.reflTransGen_iff_eq_or_transGen (a := first)]
            tauto
      rw [loop _ _ fun _ listed => listed]
      have reaches : (∃ superIntf ∈ graph.localInterfaces intf,
          Relation.ReflTransGen graph.Declares superIntf interface) ↔
            Relation.TransGen graph.Declares intf interface := by
        rw [Relation.TransGen.head'_iff]
        rfl
      rw [reaches]

theorem mem_itableOf_iff
    {fuel id interface : Nat}
    (enough : graph.loaded id < fuel) :
    interface ∈ graph.itableOf fuel id ↔
      ∃ super ∈ graph.supers id, Relation.TransGen graph.Declares super interface := by
  induction fuel generalizing id with
  | zero => exact absurd enough (Nat.not_lt_zero _)
  | succ fuel inductionHypothesis =>
      rw [itableOf]
      cases isSuper : graph.superOf id with
      | none =>
          simp [mem_updateLocalItables (Nat.lt_succ_self _), supers_none isSuper]
      | some super =>
          have earlier : graph.loaded super < fuel := by
            have := graph.super_loaded isSuper
            omega
          simp only [mem_updateLocalItables (Nat.lt_succ_self _), supers_some isSuper,
            inductionHypothesis earlier, List.mem_cons, exists_eq_or_imp]
          by_cases isInherited : ∃ above ∈ graph.supers super,
            Relation.TransGen graph.Declares above interface
          · simp [isInherited]
          · simp [isInherited]

/-- The interfaces of the table: those of the class and of its superclasses. -/
theorem mem_itable_iff {id interface : Nat} :
    interface ∈ graph.itable id ↔
      ∃ super ∈ graph.supers id, Relation.TransGen graph.Declares super interface :=
  mem_itableOf_iff (Nat.lt_succ_self _)

/-- From an interface its superclass leads to `java.lang.Object` only. -/
theorem supers_interface {interface : Nat} (isInterface : graph.isInterface interface = true) :
    graph.supers interface = [interface, graph.objectClass] := by
  rw [supers_some (graph.interface_super isInterface), supers_object]

theorem not_declares_of_object {interface : Nat} :
    ¬ Relation.TransGen graph.Declares graph.objectClass interface := by
  intro reaches
  obtain ⟨first, declares, _⟩ := Relation.TransGen.head'_iff.mp reaches
  rw [Declares, graph.object_interfaces] at declares
  cases declares

theorem isInterface_of_declares
    {id interface : Nat}
    (reaches : Relation.TransGen graph.Declares id interface) :
    graph.isInterface interface = true := by
  obtain ⟨last, _, declares⟩ := Relation.TransGen.tail'_iff.mp reaches
  exact graph.interface_interface declares

variable (graph) in
/-- What the subtype check goes by. -/
def hierarchy : Hierarchy where
  objectClass := graph.objectClass
  isInterface := graph.isInterface
  supers := graph.supers
  itable := graph.itable
  supers_self := supers_self
  supers_closed := supers_closed
  itable_supers := by
    intro id super interface isSuper listed
    obtain ⟨above, isAbove, reaches⟩ := mem_itable_iff.1 listed
    exact mem_itable_iff.2 ⟨above, supers_closed isSuper isAbove, reaches⟩
  itable_closed := by
    intro id interface above listed isAbove
    obtain ⟨super, isSuper, reaches⟩ := mem_itable_iff.1 listed
    obtain ⟨between, isBetween, onwards⟩ := mem_itable_iff.1 isAbove
    rw [supers_interface (isInterface_of_declares reaches), List.mem_cons, List.mem_singleton]
      at isBetween
    rcases isBetween with rfl | rfl
    · exact mem_itable_iff.2 ⟨super, isSuper, reaches.trans onwards⟩
    · exact absurd onwards not_declares_of_object
  interface_supers := by
    intro id interface above isInterface isAbove notInterface
    rw [supers_interface isInterface, List.mem_cons, List.mem_singleton] at isAbove
    rcases isAbove with rfl | rfl
    · rw [isInterface] at notInterface
      cases notInterface
    · exact object_mem_supers id
  object_supers := supers_object
  object_itable := by
    rw [List.eq_nil_iff_forall_not_mem]
    intro interface listed
    obtain ⟨super, isSuper, reaches⟩ := mem_itable_iff.1 listed
    rw [supers_object, List.mem_singleton] at isSuper
    exact not_declares_of_object (isSuper ▸ reaches)
  object_not_interface := isInterface_object

/-! ## The computed relation -/

theorem JavaSubtype.instanceClass_of_supers
    {id super : Nat}
    (isSuper : super ∈ graph.supers id) :
    graph.JavaSubtype (.instanceClass id) (.instanceClass super) := by
  induction id using graph.super_induction with
  | root id isRoot =>
      rw [supers_none isRoot, List.mem_singleton] at isSuper
      rw [isSuper]
      exact .refl
  | step id next isNext inductionHypothesis =>
      rw [supers_some isNext, List.mem_cons] at isSuper
      rcases isSuper with rfl | later
      · exact .refl
      · exact .head (.super isNext) (inductionHypothesis later)

theorem JavaSubtype.instanceClass_of_declares
    {id interface : Nat}
    (reaches : Relation.TransGen graph.Declares id interface) :
    graph.JavaSubtype (.instanceClass id) (.instanceClass interface) := by
  induction reaches with
  | single declares => exact .single (.interface declares)
  | tail _ declares inductionHypothesis => exact inductionHypothesis.tail (.interface declares)

theorem JavaSubtype.objArray
    {element other : Klass}
    (below : graph.JavaSubtype element other) :
    graph.JavaSubtype (.objArray element) (.objArray other) := by
  induction below with
  | refl => exact .refl
  | tail _ isSuper inductionHypothesis => exact inductionHypothesis.tail (.element isSuper)

/-- The computed answer is that of the language: it is a subtype. -/
theorem JavaSubtype.of_isSubtype
    {klass other : Klass}
    (isSubtype : IsSubtype graph.hierarchy klass other) :
    graph.JavaSubtype klass other := by
  induction klass generalizing other with
  | instanceClass id =>
      cases other with
      | instanceClass other =>
          rcases isSubtype with rfl | computed
          · exact .refl
          · rw [instanceIsSubtypeOf] at computed
            split at computed
            · rw [Bool.or_eq_true, decide_eq_true_iff, decide_eq_true_iff] at computed
              rcases computed with rfl | listed
              · exact .refl
              · obtain ⟨super, isSuper, reaches⟩ := mem_itable_iff.1 listed
                exact (instanceClass_of_supers isSuper).trans (instanceClass_of_declares reaches)
            · exact instanceClass_of_supers (decide_eq_true_iff.mp computed)
      | typeArray type => exact isSubtype.elim
      | objArray element => exact isSubtype.elim
  | typeArray type =>
      cases other with
      | instanceClass other =>
          rw [show other = graph.objectClass from isSubtype]
          exact .single (.typeArray type)
      | typeArray other =>
          rw [show type = other from isSubtype]
          exact .refl
      | objArray element => exact isSubtype.elim
  | objArray element inductionHypothesis =>
      cases other with
      | instanceClass other =>
          rw [show other = graph.objectClass from isSubtype]
          exact .single (.objArray element)
      | typeArray type => exact isSubtype.elim
      | objArray other =>
          rcases isSubtype with rfl | below
          · exact .refl
          · exact JavaSubtype.objArray (inductionHypothesis below)

/-- A direct supertype is computed as one. -/
theorem DirectSupertype.isSubtype
    {klass other : Klass}
    (direct : graph.DirectSupertype klass other) :
    IsSubtype graph.hierarchy klass other := by
  induction direct with
  | super isSuper =>
      right
      have notInterface : graph.hierarchy.isInterface _ = false := graph.super_class isSuper
      rw [instanceIsSubtypeOf, notInterface]
      apply decide_eq_true
      rw [show graph.hierarchy.supers _ = graph.supers _ from rfl, supers_some isSuper]
      exact List.mem_cons_of_mem _ (supers_self _)
  | interface declares =>
      right
      have isInterface : graph.hierarchy.isInterface _ = true := graph.interface_interface declares
      rw [instanceIsSubtypeOf, if_pos isInterface, Bool.or_eq_true]
      right
      apply decide_eq_true
      exact mem_itable_iff.2 ⟨_, supers_self _, .single declares⟩
  | typeArray type => exact rfl
  | objArray element => exact rfl
  | element _ inductionHypothesis => exact Or.inr inductionHypothesis

/-- Without what is remembered the check computes the relation of the language. -/
theorem isSubtype_iff {klass other : Klass} :
    IsSubtype graph.hierarchy klass other ↔ graph.JavaSubtype klass other := by
  constructor
  · exact JavaSubtype.of_isSubtype
  · intro below
    induction below with
    | refl => exact IsSubtype.refl klass
    | tail _ direct inductionHypothesis => exact inductionHypothesis.trans direct.isSubtype

end ClassGraph

/-! ## Sequences of queries -/

/-- Nothing is remembered yet. -/
def Caches.empty : Caches where
  first := fun _ => none
  second := fun _ => none

/-- The answers to queries, one after the other. -/
def answers (hierarchy : Hierarchy) : Caches → List (Klass × Klass) → List Bool
  | _, [] => []
  | caches, (self, other) :: queries =>
      (isSubtypeOf hierarchy self other caches).1 ::
        answers hierarchy (isSubtypeOf hierarchy self other caches).2 queries

theorem Caches.empty_valid (hierarchy : Hierarchy) : Caches.empty.Valid hierarchy := by
  rintro self other (impossible | impossible) <;> cases impossible

theorem Caches.Valid.answers
    {hierarchy : Hierarchy} {caches : Caches}
    (valid : caches.Valid hierarchy)
    (queries : List (Klass × Klass)) :
    List.Forall₂ (fun query answer => answer = true ↔ IsSubtype hierarchy query.1 query.2) queries
      (answers hierarchy caches queries) := by
  induction queries generalizing caches with
  | nil =>
      exact .nil
  | cons query queries inductionHypothesis =>
      obtain ⟨right, stillValid⟩ := isSubtypeOf_spec valid query.1 query.2
      exact .cons right (inductionHypothesis stillValid)

/-- Every query is answered as the language does, whatever has been asked before. -/
theorem queries_answered (graph : ClassGraph) (queries : List (Klass × Klass)) :
    List.Forall₂ (fun query answer => answer = true ↔ graph.JavaSubtype query.1 query.2) queries
      (answers graph.hierarchy Caches.empty queries) := by
  have answered := (Caches.empty_valid graph.hierarchy).answers queries
  exact answered.imp fun query answer right => right.trans ClassGraph.isSubtype_iff

/-- Class 2 implements the interface 1, and everything extends class 0. -/
def oneInterface : ClassGraph where
  objectClass := 0
  superOf := fun id => if id = 0 then none else some 0
  localInterfaces := fun id => if id = 2 then [1] else []
  isInterface := fun id => id == 1
  loaded := fun id => id
  super_loaded := by
    intro id super isSuper
    split at isSuper
    · cases isSuper
    · cases isSuper
      omega
  interface_loaded := by
    intro id interface declared
    split at declared
    · simp only [List.mem_singleton] at declared
      omega
    · cases declared
  super_none := by simp
  super_class := by
    intro id super isSuper
    split at isSuper
    · cases isSuper
    · cases isSuper
      rfl
  interface_interface := by
    intro id interface declared
    split at declared
    · simpa using declared
    · cases declared
  interface_super := by
    intro interface isInterface
    rw [beq_iff_eq] at isInterface
    rw [isInterface]
    rfl
  object_interfaces := rfl

example :
    answers oneInterface.hierarchy Caches.empty
      [(.objArray (.instanceClass 2), .objArray (.instanceClass 1)),
        (.instanceClass 1, .instanceClass 2), (.objArray (.instanceClass 2), .instanceClass 0),
        (.objArray (.typeArray .int), .objArray (.instanceClass 0))] =
      [true, false, true, true] := by
  decide

end PicoJvm.Arrays
