import PicoJvm.Lib.SoleHolder
import PicoJvm.Romizer.Hierarchy

/-!
# The caches of implementing classes

`fill_interface_implementation_cache` and the two recursions it uses. Each cache is
the record of a list of events: an implementing class claims an interface, or an
interface is barred because applications may implement it.
-/

namespace PicoJvm.Romizer

open PicoJvm.Lib.SoleHolder
open PicoJvm.Dispatch (Method)
open Relation (ReflTransGen TransGen)

/-- A cache: `NOT_IMPLEMENTED`, a class id, or `FORBID_TO_IMPLEMENT`. -/
abbrev Cache := Nat → Entry Nat

namespace ClassTable

variable (table : ClassTable)

/-- `cls->local_interfaces()`. -/
def localInterfaces (id : Nat) : List Nat :=
  ((table.klassAt id).map Klass.localInterfaces).getD []

/-- `cls->super()`. -/
def superOf (id : Nat) : Option Nat :=
  (table.klassAt id).bind Klass.super

/-! ## Filling the caches -/

/-- `forbid_invoke_interface_optimization`, on the cache it works on. -/
def forbidOptimization (direct : Bool) : Nat → Nat → Cache → Cache
  | 0, _, cache => cache
  | fuel + 1, id, cache =>
      let cache := record cache (.bar id)
      let cache := (table.localInterfaces id).foldl (fun cache interface =>
        record cache (.bar interface)) cache
      if direct then
        cache
      else
        match table.superOf id with
        | none => cache
        | some super => forbidOptimization false fuel super cache

/-- `set_implementing_class`, on the cache it works on. -/
def setImplementingClass (classId : Nat) (directOnly : Bool) :
    Nat → Nat → Bool → Cache → Cache
  | 0, _, _, cache => cache
  | fuel + 1, id, onlyChilds, cache =>
      let cache := if onlyChilds then cache else record cache (.claim id classId)
      let cache := (table.localInterfaces id).foldl (fun cache interface =>
        setImplementingClass classId directOnly fuel interface false cache) cache
      if directOnly then
        cache
      else
        match table.superOf id with
        | none => cache
        | some super => setImplementingClass classId directOnly fuel super true cache

/-- `interface_implementation_cache` and `direct_interface_implementation_cache`. -/
structure Caches where
  implementation : Cache
  direct : Cache

/-- The body of the loop of `fill_interface_implementation_cache`. -/
def fillFor (caches : Caches) (id : Nat) : Caches :=
  match table.klassAt id with
  | none => caches
  | some klass =>
      let fuel := table.height id + 1
      if klass.isInterface then
        if klass.isHidden = false then
          ⟨table.forbidOptimization false fuel id caches.implementation,
            table.forbidOptimization true fuel id caches.direct⟩
        else
          caches
      else
        let direct := table.setImplementingClass id true fuel id true caches.direct
        if klass.isHidden ∨ klass.isFinal then
          ⟨table.setImplementingClass id false fuel id true caches.implementation, direct⟩
        else
          ⟨table.forbidOptimization false fuel id caches.implementation, direct⟩

/-- `fill_interface_implementation_cache`. -/
def fillInterfaceImplementationCache : Caches :=
  (List.range table.classes.length).foldl table.fillFor ⟨fun _ => .vacant, fun _ => .vacant⟩

/-! ## The events -/

/-- The ids `forbid_invoke_interface_optimization` bars. -/
def forbiddenIds (direct : Bool) : Nat → Nat → List Nat
  | 0, _ => []
  | fuel + 1, id =>
      id :: (table.localInterfaces id ++
        if direct then
          []
        else
          match table.superOf id with
          | none => []
          | some super => forbiddenIds false fuel super)

/-- The interfaces `set_implementing_class` claims, once for each way that leads to
them. -/
def implementationChains (directOnly : Bool) : Nat → Nat → Bool → List Nat
  | 0, _, _ => []
  | fuel + 1, id, onlyChilds =>
      (if onlyChilds then [] else [id]) ++
        ((table.localInterfaces id).flatMap fun interface =>
          implementationChains directOnly fuel interface false) ++
        if directOnly then
          []
        else
          match table.superOf id with
          | none => []
          | some super => implementationChains directOnly fuel super true

/-- The ways from a class to the interfaces it implements. -/
def chainsOf (directOnly : Bool) (id : Nat) : List Nat :=
  table.implementationChains directOnly (table.height id + 1) id true

theorem forbidOptimization_eq
    (direct : Bool) (fuel id : Nat) (cache : Cache) :
    table.forbidOptimization direct fuel id cache =
      recordAll ((table.forbiddenIds direct fuel id).map .bar) cache := by
  induction fuel generalizing direct id cache with
  | zero =>
      rfl
  | succ fuel inductionHypothesis =>
      rw [forbidOptimization, forbiddenIds, List.map_cons, List.map_append]
      rw [foldl_record_map]
      change _ = recordAll (_ ++ _) (record cache (.bar id))
      rw [recordAll_append]
      cases direct with
      | true =>
          rfl
      | false =>
          cases table.superOf id with
          | none =>
              rfl
          | some super =>
              exact inductionHypothesis false super _

theorem setImplementingClass_eq
    (classId : Nat) (directOnly : Bool) (fuel id : Nat) (onlyChilds : Bool) (cache : Cache) :
    table.setImplementingClass classId directOnly fuel id onlyChilds cache =
      recordAll
        ((table.implementationChains directOnly fuel id onlyChilds).map
          fun interface => .claim interface classId) cache := by
  induction fuel generalizing id onlyChilds cache with
  | zero =>
      rfl
  | succ fuel inductionHypothesis =>
      rw [setImplementingClass, implementationChains, List.map_append, List.map_append,
        recordAll_append, recordAll_append]
      have ownClaim :
          (if onlyChilds then cache else record cache (.claim id classId)) =
            recordAll ((if onlyChilds then [] else [id]).map
              fun interface => .claim interface classId) cache := by
        cases onlyChilds <;> rfl
      have interfaceClaims (interfaces : List Nat) (cache : Cache) :
          interfaces.foldl (fun cache interface =>
              table.setImplementingClass classId directOnly fuel interface false cache) cache =
            recordAll
              ((interfaces.flatMap fun interface =>
                table.implementationChains directOnly fuel interface false).map
                  fun interface => .claim interface classId) cache := by
        induction interfaces generalizing cache with
        | nil =>
            rfl
        | cons interface rest restHypothesis =>
            rw [List.foldl_cons, List.flatMap_cons, List.map_append, recordAll_append,
              restHypothesis, inductionHypothesis]
      rw [ownClaim, interfaceClaims]
      cases directOnly with
      | true =>
          rfl
      | false =>
          cases table.superOf id with
          | none =>
              rfl
          | some super =>
              exact inductionHypothesis super true _

/-- A class claims the interfaces it implements, if its entry is for all classes or if
applications cannot extend it. -/
def Counts (directOnly : Bool) (klass : Klass) : Bool :=
  !klass.isInterface && (directOnly || klass.isHidden || klass.isFinal)

/-- What a class or interface bars: applications may implement or extend it. -/
def Opens (directOnly : Bool) (klass : Klass) : Bool :=
  !klass.isHidden && (klass.isInterface || (!directOnly && !klass.isFinal))

/-- The events for one class id. -/
def eventsFor (directOnly : Bool) (id : Nat) : List (Event Nat Nat) :=
  match table.klassAt id with
  | none => []
  | some klass =>
      if Opens directOnly klass then
        (table.forbiddenIds directOnly (table.height id + 1) id).map .bar
      else if Counts directOnly klass then
        (table.chainsOf directOnly id).map fun interface => .claim interface id
      else
        []

/-- The events for all classes. -/
def events (directOnly : Bool) : List (Event Nat Nat) :=
  (List.range table.classes.length).flatMap (table.eventsFor directOnly)

theorem fillFor_eq (caches : Caches) (id : Nat) :
    table.fillFor caches id =
      ⟨recordAll (table.eventsFor false id) caches.implementation,
        recordAll (table.eventsFor true id) caches.direct⟩ := by
  rw [fillFor, eventsFor, eventsFor]
  cases table.klassAt id with
  | none =>
      rfl
  | some klass =>
      dsimp only
      rw [forbidOptimization_eq, forbidOptimization_eq, setImplementingClass_eq,
        setImplementingClass_eq]
      obtain ⟨isInterface, isFinal, isPublic, inRestricted, inHidden, _, _, _⟩ := klass
      cases isInterface <;> cases isFinal <;> cases isPublic <;> cases inRestricted <;>
        cases inHidden <;> rfl

theorem fillInterfaceImplementationCache_eq :
    table.fillInterfaceImplementationCache =
      ⟨recordAll (table.events false) fun _ => .vacant,
        recordAll (table.events true) fun _ => .vacant⟩ := by
  have upTo (ids : List Nat) (caches : Caches) :
      ids.foldl table.fillFor caches =
        ⟨recordAll (ids.flatMap (table.eventsFor false)) caches.implementation,
          recordAll (ids.flatMap (table.eventsFor true)) caches.direct⟩ := by
    induction ids generalizing caches with
    | nil =>
        rfl
    | cons id rest inductionHypothesis =>
        rw [List.foldl_cons, inductionHypothesis, fillFor_eq, List.flatMap_cons,
          List.flatMap_cons, recordAll_append, recordAll_append]
  exact upTo _ _

end ClassTable

end PicoJvm.Romizer
