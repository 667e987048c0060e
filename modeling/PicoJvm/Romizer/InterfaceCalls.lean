import PicoJvm.Romizer.InterfaceCache

/-!
# Interface calls bound by the romizer

`ConstantPool::resolve_invoke_interface_at` turns a call of an interface method into a
call of the one method the caches leave. That is right as long as no interface that
applications can get at stays in a cache.
-/

namespace PicoJvm.Romizer

open PicoJvm.Lib.SoleHolder
open PicoJvm.Dispatch (Method)
open Relation (ReflTransGen TransGen)

/-! ## Resolution -/

/-- What a constant-pool entry for an interface method is resolved to, and so the
bytecode `_quicken` chooses: `_fast_invokevirtual_final` for a bound method,
`_fast_invokevirtual` for the slot of a method, else no devirtualised call. -/
inductive Resolution
  | refused
  | uncommon
  | bound (method : Method)
  | virtual (method : Method)
  | interface (id : Nat)
  deriving DecidableEq, Repr

def Resolution.isDevirtualised : Resolution → Bool
  | .bound _ | .virtual _ => true
  | _ => false

namespace ClassTable

variable (table : ClassTable)

/-- `resolve_method_ref`. -/
def resolveMethodRef (staticReceiver : Nat) (method : Method) : Resolution :=
  if ((table.klassAt staticReceiver).any Klass.isFinal) ∨ method.isFinal ∨ method.isStatic ∨
      method.isObjectInitializer then
    .bound method
  else
    .virtual method

/-- The method of an implementing class, unless that omits it. -/
def implementingMethod (id : Nat) (name signature : String) : Option Method :=
  (table.lookupMethod id name signature false).filter fun method =>
    decide (method.access = .isPublic ∧ method.isStatic = false)

/-- `resolve_invoke_interface_at` while a ROM image is generated. -/
def resolveInvokeInterface (interface : Nat) (name signature : String) : Resolution :=
  let caches := table.fillInterfaceImplementationCache
  if (table.klassAt interface).all fun klass => !klass.isInterface then
    .refused
  else
    match table.lookupInAllInterfaces name signature (table.height interface + 1) interface with
    | none => .uncommon
    | some (id, named) =>
        if named.access ≠ .isPublic then
          .refused
        else
          match caches.implementation id with
          | .heldBy implementing =>
              match table.implementingMethod implementing name signature with
              | some method => .bound method
              | none => .interface id
          | _ =>
              match caches.direct id with
              | .heldBy implementing =>
                  match table.implementingMethod implementing name signature with
                  | some method => table.resolveMethodRef implementing method
                  | none => .interface id
              | _ => .interface id

/-- The method a devirtualised call reaches for a receiver. -/
def callee (receiver : Nat) : Resolution → Option Method
  | .bound method => some method
  | .virtual method => table.slotMethod method (table.chain receiver)
  | _ => none

/-! ## Who can implement an interface -/

/-- An application can list the interface, or one that extends it. -/
def Nameable (interface : Nat) : Prop :=
  ∃ id klass, table.klassAt id = some klass ∧ klass.isHidden = false ∧
    klass.isInterface = true ∧ ReflTransGen (Declares table.classes) id interface

/-- An application can implement the interface: it can name it, or extend a class that
has it. -/
def Implementable (interface : Nat) : Prop :=
  table.Nameable interface ∨
    ∃ id klass, table.klassAt id = some klass ∧ klass.isHidden = false ∧
      klass.isInterface = false ∧ klass.isFinal = false ∧ table.Implements id interface

/-- The interface is barred: a class or interface that is open to applications, or a
superclass of it, is or lists the interface. -/
def Fenced (directOnly : Bool) (interface : Nat) : Prop :=
  ∃ id klass, table.klassAt id = some klass ∧ Opens directOnly klass = true ∧
    ∃ super, ReflTransGen (IsSuper table.classes) id super ∧
      (directOnly = true → super = id) ∧
        (interface = super ∨ Declares table.classes super interface)

/-- The ways from classes that count to the interface; each stands for its class. -/
def ways (directOnly : Bool) (interface : Nat) : List Nat :=
  (List.range table.classes.length).flatMap fun id =>
    if (table.klassAt id).any (Counts directOnly) then
      ((table.chainsOf directOnly id).filter fun other => decide (other = interface)).map
        fun _ => id
    else
      []

/-! ## The caches, by the hierarchy -/

variable {table}

theorem superOf_eq_some_iff
    {id super : Nat} :
    table.superOf id = some super ↔ IsSuper table.classes id super :=
  Option.bind_eq_some_iff

theorem mem_localInterfaces_iff
    {id interface : Nat} :
    interface ∈ table.localInterfaces id ↔ Declares table.classes id interface := by
  unfold localInterfaces Declares
  cases isKlass : table.klassAt id with
  | none =>
      rw [show classAt table.classes id = none from isKlass]
      simp
  | some klass =>
      rw [show classAt table.classes id = some klass from isKlass]
      simp

theorem mem_forbiddenIds_iff
    {directOnly : Bool} {fuel id interface : Nat}
    (enough : table.height id < fuel) :
    interface ∈ table.forbiddenIds directOnly fuel id ↔
      ∃ super, ReflTransGen (IsSuper table.classes) id super ∧
        (directOnly = true → super = id) ∧
          (interface = super ∨ Declares table.classes super interface) := by
  induction fuel generalizing directOnly id with
  | zero =>
      exact absurd enough (Nat.not_lt_zero _)
  | succ fuel inductionHypothesis =>
      rw [forbiddenIds, List.mem_cons, List.mem_append, mem_localInterfaces_iff]
      constructor
      · rintro (rfl | declares | later)
        · exact ⟨interface, .refl, fun _ => rfl, .inl rfl⟩
        · exact ⟨id, .refl, fun _ => rfl, .inr declares⟩
        · cases directOnly with
          | true =>
              cases later
          | false =>
              cases superEq : table.superOf id with
              | none =>
                  rw [superEq] at later
                  cases later
              | some super =>
                  rw [superEq] at later
                  have step := superOf_eq_some_iff.1 superEq
                  have lower := height_lt_of_isSuper step
                  obtain ⟨top, above, _, isTop⟩ :=
                    (inductionHypothesis (by omega)).mp later
                  exact ⟨top, .head step above, fun isDirect => (by cases isDirect), isTop⟩
      · rintro ⟨super, above, onlyHere, isSuper⟩
        rcases ReflTransGen.cases_head above with rfl | ⟨next, step, later⟩
        · rcases isSuper with rfl | declares
          · exact .inl rfl
          · exact .inr (.inl declares)
        · cases directOnly with
          | true =>
              -- the direct cache only looks at the class itself
              rw [onlyHere rfl] at isSuper
              rcases isSuper with rfl | declares
              · exact .inl rfl
              · exact .inr (.inl declares)
          | false =>
              refine .inr (.inr ?_)
              rw [superOf_eq_some_iff.2 step]
              have lower := height_lt_of_isSuper step
              exact (inductionHypothesis (by omega)).mpr
                ⟨super, later, fun isDirect => (by cases isDirect), isSuper⟩

theorem mem_events_bar_iff
    {directOnly : Bool} {interface : Nat} :
    .bar interface ∈ table.events directOnly ↔ table.Fenced directOnly interface := by
  rw [events, List.mem_flatMap]
  constructor
  · rintro ⟨id, _, member⟩
    rw [eventsFor] at member
    cases isKlass : table.klassAt id with
    | none =>
        rw [isKlass] at member
        cases member
    | some klass =>
        rw [isKlass] at member
        dsimp only at member
        split at member
        · rename_i opens
          obtain ⟨other, isForbidden, barEq⟩ := List.mem_map.mp member
          cases barEq
          exact ⟨id, klass, isKlass, opens,
            (mem_forbiddenIds_iff (Nat.lt_succ_self _)).mp isForbidden⟩
        · split at member
          · obtain ⟨other, _, barEq⟩ := List.mem_map.mp member
            cases barEq
          · cases member
  · rintro ⟨id, klass, isKlass, opens, barred⟩
    refine ⟨id, List.mem_range.mpr (klassAt_lt isKlass), ?_⟩
    rw [eventsFor, isKlass]
    dsimp only
    rw [if_pos opens]
    exact List.mem_map_of_mem ((mem_forbiddenIds_iff (Nat.lt_succ_self _)).mpr barred)

theorem claimsTo_map_bar (interface : Nat) (ids : List Nat) :
    claimsTo interface (ids.map Event.bar : List (Event Nat Nat)) = [] := by
  induction ids with
  | nil =>
      rfl
  | cons id rest inductionHypothesis =>
      exact inductionHypothesis

theorem claimsTo_map_claim (interface owner : Nat) (ids : List Nat) :
    claimsTo interface (ids.map fun id => Event.claim id owner) =
      (ids.filter fun id => decide (id = interface)).map fun _ => owner := by
  induction ids with
  | nil =>
      rfl
  | cons id rest inductionHypothesis =>
      rw [List.map_cons, claimsTo, inductionHypothesis]
      by_cases here : id = interface
      · simp [here]
      · simp [here]

theorem opens_counts
    {directOnly : Bool} {klass : Klass}
    (opens : Opens directOnly klass = true) :
    Counts directOnly klass = false := by
  unfold Opens at opens
  unfold Counts
  generalize klass.isHidden = isHidden at opens ⊢
  generalize klass.isInterface = isInterface at opens ⊢
  generalize klass.isFinal = isFinal at opens ⊢
  revert opens
  revert isHidden isInterface isFinal directOnly
  decide

theorem claimsTo_events (directOnly : Bool) (interface : Nat) :
    claimsTo interface (table.events directOnly) = table.ways directOnly interface := by
  rw [events, claimsTo_flatMap, ways]
  congr 1
  funext id
  rw [eventsFor]
  cases table.klassAt id with
  | none =>
      rfl
  | some klass =>
      dsimp only
      rw [Option.any_some]
      by_cases opens : Opens directOnly klass = true
      · rw [if_pos opens, claimsTo_map_bar, if_neg (by rw [opens_counts opens]; decide)]
      · rw [if_neg opens]
        by_cases counts : Counts directOnly klass = true
        · rw [if_pos counts, if_pos counts, claimsTo_map_claim]
        · rw [if_neg counts, if_neg counts]
          rfl

theorem implementation_eq_heldBy_iff
    {interface owner : Nat} :
    table.fillInterfaceImplementationCache.implementation interface = .heldBy owner ↔
      ¬ table.Fenced false interface ∧ table.ways false interface = [owner] := by
  rw [fillInterfaceImplementationCache_eq, recordAll_eq_heldBy_iff, mem_events_bar_iff,
    claimsTo_events]

theorem direct_eq_heldBy_iff
    {interface owner : Nat} :
    table.fillInterfaceImplementationCache.direct interface = .heldBy owner ↔
      ¬ table.Fenced true interface ∧ table.ways true interface = [owner] := by
  rw [fillInterfaceImplementationCache_eq, recordAll_eq_heldBy_iff, mem_events_bar_iff,
    claimsTo_events]

/-! ## Every implementing class claims the interface -/

theorem mem_implementationChains_of_declares
    {directOnly onlyChilds : Bool} {fuel id declared interface : Nat}
    (enough : table.height id < fuel)
    (declares : Declares table.classes id declared)
    (reaches : ReflTransGen (Declares table.classes) declared interface) :
    interface ∈ table.implementationChains directOnly fuel id onlyChilds := by
  induction fuel generalizing id declared onlyChilds with
  | zero =>
      exact absurd enough (Nat.not_lt_zero _)
  | succ fuel inductionHypothesis =>
      rw [implementationChains, List.mem_append, List.mem_append, List.mem_flatMap]
      refine .inl (.inr ⟨declared, mem_localInterfaces_iff.2 declares, ?_⟩)
      have lower : table.height declared < fuel := by
        obtain ⟨klass, isKlass, member⟩ := declares
        have := (table.interfacesLegal isKlass member).1
        omega
      rcases ReflTransGen.cases_head reaches with rfl | ⟨next, step, later⟩
      · cases fuel with
        | zero =>
            exact absurd lower (Nat.not_lt_zero _)
        | succ fuel =>
            rw [implementationChains]
            simp
      · exact inductionHypothesis lower step later

theorem mem_implementationChains_of_implements
    {fuel id interface : Nat}
    (enough : table.height id < fuel)
    (implements : table.Implements id interface) :
    interface ∈ table.implementationChains false fuel id true := by
  obtain ⟨super, above, declared, declares, reaches⟩ := implements
  induction above using ReflTransGen.head_induction_on generalizing fuel with
  | refl =>
      exact mem_implementationChains_of_declares enough declares reaches
  | @head lower next step _ inductionHypothesis =>
      cases fuel with
      | zero =>
          exact absurd enough (Nat.not_lt_zero _)
      | succ fuel =>
          have below := height_lt_of_isSuper step
          rw [implementationChains, List.mem_append]
          refine .inr ?_
          rw [superOf_eq_some_iff.2 step]
          exact inductionHypothesis (by omega)

theorem mem_ways
    {directOnly : Bool} {id interface : Nat} {klass : Klass}
    (isKlass : table.klassAt id = some klass)
    (counts : Counts directOnly klass = true)
    (member : interface ∈ table.chainsOf directOnly id) :
    id ∈ table.ways directOnly interface := by
  rw [ways, List.mem_flatMap]
  refine ⟨id, List.mem_range.mpr (klassAt_lt isKlass), ?_⟩
  rw [isKlass, Option.any_some, if_pos counts]
  exact List.mem_map.mpr ⟨interface, List.mem_filter.mpr ⟨member, by simp⟩, rfl⟩

theorem lookupInAllInterfaces_reaches
    {name signature : String} {fuel interface id : Nat} {named : Method}
    (found : table.lookupInAllInterfaces name signature fuel interface = some (id, named)) :
    ReflTransGen (Declares table.classes) interface id ∧
      table.findLocalMethod id name signature false = some named := by
  induction fuel generalizing interface with
  | zero =>
      cases found
  | succ fuel inductionHypothesis =>
      rw [lookupInAllInterfaces] at found
      cases isLocal : table.findLocalMethod interface name signature false with
      | some first =>
          rw [isLocal] at found
          cases found
          exact ⟨.refl, isLocal⟩
      | none =>
          rw [isLocal] at found
          cases isKlass : table.klassAt interface with
          | none =>
              rw [isKlass] at found
              cases found
          | some klass =>
              rw [isKlass] at found
              obtain ⟨super, member, found⟩ := List.exists_of_findSome?_eq_some found
              obtain ⟨reaches, isNamed⟩ := inductionHypothesis found
              exact ⟨.head ⟨klass, isKlass, member⟩ reaches, isNamed⟩

end ClassTable

end PicoJvm.Romizer
