import PicoJvm.Romizer.InterfaceCalls

/-!
# When interface calls may be bound

The romizer bars an interface that is visible and the ones it lists, but not those
that these extend in turn; the same goes for what a visible class lists. An interface
further up keeps its implementing class although applications can implement it.
-/

namespace PicoJvm.Romizer

open PicoJvm.Lib.SoleHolder
open PicoJvm.Dispatch (Method)
open Relation (ReflTransGen TransGen)

namespace ClassTable

/-- Each interface that applications can get at is barred, or has not exactly one way
that leads to it. -/
structure Covered (table : ClassTable) : Prop where
  implementation : ∀ interface, table.Implementable interface →
    table.Fenced false interface ∨ (table.ways false interface).length ≠ 1
  direct : ∀ interface, table.Nameable interface →
    table.Fenced true interface ∨ (table.ways true interface).length ≠ 1

/-- The calls that the romizer bound are right whatever applications add, and no interface
that applications can get at keeps a single implementing class. A class that applications
can extend may stay the one that lists an interface: its calls go through the vtable. -/
structure InterfaceCallsSafe (table : ClassTable) : Prop where
  sameMethod : ∀ {extended interface name signature receiver klass target},
    table.ExtendedBy extended →
      extended.klassAt receiver = some klass → klass.isInterface = false →
        extended.Implements receiver interface →
          extended.interfaceDispatch receiver name signature = some target →
            (table.resolveInvokeInterface interface name signature).isDevirtualised →
              extended.callee receiver
                (table.resolveInvokeInterface interface name signature) = some target
  noneKept : ∀ interface, table.Implementable interface → ∀ id,
    table.fillInterfaceImplementationCache.implementation interface ≠ .heldBy id
  noneKeptDirect : ∀ interface, table.Nameable interface → ∀ id,
    table.fillInterfaceImplementationCache.direct interface ≠ .heldBy id

variable {table extended : ClassTable}

/-! ## Application classes -/

/-- An application class that has an interface of the image has it from a visible
class or interface. -/
theorem nameable_of_declares
    {id declared interface : Nat}
    (extends' : table.ExtendedBy extended)
    (isApplication : table.classes.length ≤ id)
    (declares : Declares extended.classes id declared)
    (reaches : ReflTransGen (Declares extended.classes) declared interface)
    (inImage : interface < table.classes.length) :
    table.Nameable interface := by
  have notInside : ¬ id < table.classes.length := by omega
  obtain ⟨before, after, _, beforeOutside, step, afterInside, later⟩ :=
    exists_crossing (fun id => id < table.classes.length)
      (ReflTransGen.head declares reaches) notInside inImage
  obtain ⟨klass, isKlass, isVisible⟩ :=
    extends'.interfacesVisible (by omega) step afterInside
  obtain ⟨_, isBefore, member⟩ := step
  obtain ⟨_, interfaceKlass, isInterfaceKlass, isInterface⟩ :=
    extended.interfacesLegal isBefore member
  have same : extended.klassAt after = some klass :=
    (klassAt_extended extends' afterInside).trans isKlass
  rw [show classAt extended.classes after = some klass from same] at isInterfaceKlass
  cases isInterfaceKlass
  exact ⟨after, klass, isKlass, isVisible, isInterface,
    (superinterfaces_extended extends' afterInside later).1⟩

theorem implementable_of_application
    {id interface : Nat}
    (extends' : table.ExtendedBy extended)
    (isApplication : table.classes.length ≤ id)
    (implements : extended.Implements id interface)
    (inImage : interface < table.classes.length) :
    table.Implementable interface := by
  obtain ⟨super, above, declared, declares, reaches⟩ := implements
  by_cases superInside : super < table.classes.length
  · have notInside : ¬ id < table.classes.length := by omega
    obtain ⟨before, after, _, beforeOutside, step, afterInside, later⟩ :=
      exists_crossing (fun id => id < table.classes.length) above notInside superInside
    obtain ⟨klass, isKlass, isVisible⟩ := extends'.superVisible (by omega) step afterInside
    obtain ⟨_, isBefore, superEq⟩ := step
    obtain ⟨_, superKlass, isSuperKlass, notInterface, notFinal⟩ :=
      extended.superLegal isBefore superEq
    have same : extended.klassAt after = some klass :=
      (klassAt_extended extends' afterInside).trans isKlass
    rw [show classAt extended.classes after = some klass from same] at isSuperKlass
    cases isSuperKlass
    have declaresHere := (declares_extended extends' superInside).mp declares
    exact .inr ⟨after, klass, isKlass, isVisible, notInterface, notFinal, super,
      (supers_extended extends' afterInside later).1, declared, declaresHere,
      (superinterfaces_extended extends' (declares_lt declaresHere).2 reaches).1⟩
  · exact .inl (nameable_of_declares extends' (by omega) declares reaches inImage)

/-- The interfaces a class of the image has are the ones it had. -/
theorem implements_of_extended
    {id interface : Nat}
    (extends' : table.ExtendedBy extended)
    (inImage : id < table.classes.length)
    (implements : extended.Implements id interface) :
    table.Implements id interface := by
  obtain ⟨super, above, declared, declares, reaches⟩ := implements
  obtain ⟨aboveHere, superInside⟩ := supers_extended extends' inImage above
  have declaresHere := (declares_extended extends' superInside).mp declares
  exact ⟨super, aboveHere, declared, declaresHere,
    (superinterfaces_extended extends' (declares_lt declaresHere).2 reaches).1⟩

/-! ## The only receivers -/

/-- A receiver of an interface with one implementing class is of that class. -/
theorem sole_implementing_class
    {id interface receiver : Nat} {klass : Klass}
    (noneKept : ∀ interface, table.Implementable interface → ∀ id,
      table.fillInterfaceImplementationCache.implementation interface ≠ .heldBy id)
    (held : table.fillInterfaceImplementationCache.implementation interface = .heldBy id)
    (extends' : table.ExtendedBy extended)
    (inImage : interface < table.classes.length)
    (isKlass : extended.klassAt receiver = some klass)
    (isClass : klass.isInterface = false)
    (implements : extended.Implements receiver interface) :
    receiver = id := by
  by_cases receiverInside : receiver < table.classes.length
  · rw [klassAt_extended extends' receiverInside] at isKlass
    have implementsHere := implements_of_extended extends' receiverInside implements
    by_cases counts : Counts false klass = true
    · have way := mem_ways isKlass counts
        (mem_implementationChains_of_implements (Nat.lt_succ_self _) implementsHere)
      rw [(implementation_eq_heldBy_iff.mp held).2] at way
      exact List.mem_singleton.mp way
    · -- a class that does not count is visible and may be extended
      have isOpen : klass.isHidden = false ∧ klass.isFinal = false := by
        simpa [Counts, isClass] using counts
      exact absurd held (noneKept _ (.inr ⟨receiver, klass, isKlass, isOpen.1, isClass,
        isOpen.2, implementsHere⟩) id)
  · exact absurd held (noneKept _
      (implementable_of_application extends' (by omega) implements inImage) id)

/-- Superclasses of classes are classes. -/
theorem isClass_of_supers
    {id super : Nat} {klass : Klass}
    (isKlass : table.klassAt id = some klass)
    (isClass : klass.isInterface = false)
    (above : ReflTransGen (IsSuper table.classes) id super) :
    ∃ superKlass, table.klassAt super = some superKlass ∧ superKlass.isInterface = false := by
  induction above with
  | refl =>
      exact ⟨klass, isKlass, isClass⟩
  | tail _ step _ =>
      obtain ⟨lower, isLower, superEq⟩ := step
      obtain ⟨_, superKlass, isSuperKlass, notInterface, _⟩ :=
        table.superLegal isLower superEq
      exact ⟨superKlass, isSuperKlass, notInterface⟩

/-- A receiver of an interface that one class lists is of that class or below it. -/
theorem sole_listing_class
    {id interface receiver : Nat} {klass : Klass}
    (noneKept : ∀ interface, table.Nameable interface → ∀ id,
      table.fillInterfaceImplementationCache.direct interface ≠ .heldBy id)
    (held : table.fillInterfaceImplementationCache.direct interface = .heldBy id)
    (extends' : table.ExtendedBy extended)
    (inImage : interface < table.classes.length)
    (isKlass : extended.klassAt receiver = some klass)
    (isClass : klass.isInterface = false)
    (implements : extended.Implements receiver interface) :
    ReflTransGen (IsSuper extended.classes) receiver id ∧ id < table.classes.length := by
  obtain ⟨super, above, declared, declares, reaches⟩ := implements
  by_cases superInside : super < table.classes.length
  · obtain ⟨superKlass, isSuperKlass, superClass⟩ := isClass_of_supers isKlass isClass above
    rw [klassAt_extended extends' superInside] at isSuperKlass
    have declaresHere := (declares_extended extends' superInside).mp declares
    have reachesHere :=
      (superinterfaces_extended extends' (declares_lt declaresHere).2 reaches).1
    have counts : Counts true superKlass = true := by
      simp [Counts, superClass]
    have way := @mem_ways _ true _ _ _ isSuperKlass counts
      (mem_implementationChains_of_declares (Nat.lt_succ_self _) declaresHere reachesHere)
    rw [(direct_eq_heldBy_iff.mp held).2] at way
    have superEq := List.mem_singleton.mp way
    rw [superEq] at above superInside
    exact ⟨above, superInside⟩
  · exact absurd held (noneKept _
      (nameable_of_declares extends' (by omega) declares reaches inImage) id)

/-! ## The method that is called -/

theorem interfaceDispatch_eq_some_iff
    {receiver : Nat} {name signature : String} {target : Method} :
    table.interfaceDispatch receiver name signature = some target ↔
      table.lookupMethod receiver name signature true = some target ∧
        target.access = .isPublic := by
  rw [interfaceDispatch, Option.filter_eq_some_iff]
  simp

theorem implementingMethod_eq_some_iff
    {id : Nat} {name signature : String} {method : Method} :
    table.implementingMethod id name signature = some method ↔
      table.lookupMethod id name signature false = some method ∧
        method.access = .isPublic ∧ method.isStatic = false := by
  rw [implementingMethod, Option.filter_eq_some_iff]
  simp

/-- How a call came to be devirtualised. -/
theorem resolveInvokeInterface_cases
    {interface : Nat} {name signature : String}
    (isDevirtualised :
      (table.resolveInvokeInterface interface name signature).isDevirtualised) :
    ∃ id named implementing method,
      table.lookupInAllInterfaces name signature (table.height interface + 1) interface =
          some (id, named) ∧
        (∃ klass, table.klassAt interface = some klass ∧ klass.isInterface = true) ∧
        table.implementingMethod implementing name signature = some method ∧
        (table.fillInterfaceImplementationCache.implementation id = .heldBy implementing ∧
            table.resolveInvokeInterface interface name signature = .bound method ∨
          table.fillInterfaceImplementationCache.direct id = .heldBy implementing ∧
            table.resolveInvokeInterface interface name signature =
              table.resolveMethodRef implementing method) := by
  generalize resolutionEq : table.resolveInvokeInterface interface name signature =
    resolution at isDevirtualised ⊢
  unfold resolveInvokeInterface at resolutionEq
  dsimp only at resolutionEq
  split at resolutionEq
  · subst resolutionEq
    cases isDevirtualised
  · rename_i isInterface
    have interfaceKlass :
        ∃ klass, table.klassAt interface = some klass ∧ klass.isInterface = true := by
      cases isKlass : table.klassAt interface with
      | none =>
          simp [isKlass] at isInterface
      | some klass =>
          exact ⟨klass, rfl, by simpa [isKlass] using isInterface⟩
    split at resolutionEq
    · subst resolutionEq
      cases isDevirtualised
    · rename_i id named found
      split at resolutionEq
      · subst resolutionEq
        cases isDevirtualised
      · split at resolutionEq
        · rename_i implementing held
          split at resolutionEq
          · rename_i method isMethod
            exact ⟨id, named, implementing, method, found, interfaceKlass, isMethod,
              .inl ⟨held, resolutionEq.symm⟩⟩
          · subst resolutionEq
            cases isDevirtualised
        · split at resolutionEq
          · rename_i implementing held
            split at resolutionEq
            · rename_i method isMethod
              exact ⟨id, named, implementing, method, found, interfaceKlass, isMethod,
                .inr ⟨held, resolutionEq.symm⟩⟩
            · subst resolutionEq
              cases isDevirtualised
          · subst resolutionEq
            cases isDevirtualised

/-- Below the class that lists an interface, its method is bound, or has the slot that
virtual dispatch looks at. -/
theorem callee_of_listing_class
    {receiver listing : Nat} {name signature : String} {method target : Method}
    (above : ReflTransGen (IsSuper extended.classes) receiver listing)
    (found : extended.lookupMethod listing name signature false = some method)
    (isVirtual : method.isStatic = false)
    (isPublic : method.access = .isPublic)
    (notInitializer : method.isObjectInitializer = false)
    (dispatched : extended.interfaceDispatch receiver name signature = some target) :
    extended.callee receiver (extended.resolveMethodRef listing method) = some target := by
  obtain ⟨looked, targetPublic⟩ := interfaceDispatch_eq_some_iff.1 dispatched
  obtain ⟨front, chainEq, below⟩ := chain_append above
  rw [lookupMethod, chainEq] at looked
  obtain ⟨holder, inChain, holderKlass, isHolder, member, fits, holderEq, _⟩ :=
    searchChain_facts found
  have holderAbove := reaches_of_mem_chain inChain
  have looksBehind (absent : ∀ id ∈ front,
      extended.findLocalMethod id name signature true = none) : method = target := by
    have isFound := lookupMethod_nonStatic found isVirtual
    rw [searchChain_append_of_absent absent] at looked
    rw [lookupMethod, looked] at isFound
    exact (Option.some.inj isFound).symm
  unfold resolveMethodRef
  split
  · rename_i isBound
    have methodEq : method = target := by
      rcases isBound with classFinal | methodFinal | isStatic | isInitializer
      · rcases ReflTransGen.cases_tail above with listingEq | ⟨lower, _, step⟩
        · subst listingEq
          rw [interfaceDispatch_eq_some_iff, lookupMethod_nonStatic found isVirtual]
            at dispatched
          exact Option.some.inj dispatched.1
        · -- nothing extends a final class
          obtain ⟨lowerKlass, isLower, superEq⟩ := step
          obtain ⟨_, listingKlass, isListing, _, notFinal⟩ :=
            extended.superLegal isLower superEq
          rw [show extended.klassAt listing = some listingKlass from isListing,
            Option.any_some, notFinal] at classFinal
          cases classFinal
      · apply looksBehind
        intro lower inFront
        cases isLocal : extended.findLocalMethod lower name signature true with
        | none =>
            rfl
        | some other =>
            obtain ⟨lowerKlass, isLower, otherMember, otherFits, _, kind⟩ :=
              findLocalMethod_facts isLocal
            obtain ⟨nameEq, signatureEq⟩ := matches_iff.mp fits
            rw [← nameEq, ← signatureEq] at otherFits
            have isStatic := extended.finalKept ((below lower inFront).trans_left holderAbove)
              isHolder member ⟨methodFinal, isPublic, isVirtual⟩ isLower otherMember otherFits
            rcases kind with impossible | otherVirtual
            · cases impossible
            · rw [isStatic] at otherVirtual
              cases otherVirtual
      · rw [isVirtual] at isStatic
        cases isStatic
      · rw [notInitializer] at isInitializer
        cases isInitializer
    rw [methodEq]
    rfl
  · rw [callee, chainEq]
    apply slotMethod_eq found isVirtual _ (extended.chain_nodup listing) looked targetPublic
    intro inFront
    rw [holderEq] at inFront
    have cycle := (below holder inFront).trans_left holderAbove
    exact absurd (height_lt_of_transGen cycle) (Nat.lt_irrefl _)

/-! ## The calls are safe exactly when every interface is covered -/

theorem resolveMethodRef_extended
    {id : Nat} {method : Method}
    (extends' : table.ExtendedBy extended)
    (inImage : id < table.classes.length) :
    extended.resolveMethodRef id method = table.resolveMethodRef id method := by
  rw [resolveMethodRef, resolveMethodRef, klassAt_extended extends' inImage]

theorem ne_heldBy_iff
    {directOnly : Bool} {interface : Nat} :
    (∀ id, ¬ (¬ table.Fenced directOnly interface ∧ table.ways directOnly interface = [id])) ↔
      table.Fenced directOnly interface ∨ (table.ways directOnly interface).length ≠ 1 := by
  rw [ne_eq, List.length_eq_one_iff]
  constructor
  · intro none
    by_contra neither
    push Not at neither
    obtain ⟨notFenced, id, onlyWay⟩ := neither
    exact none id ⟨notFenced, onlyWay⟩
  · rintro (fenced | notOne) id ⟨notFenced, onlyWay⟩
    · exact notFenced fenced
    · exact notOne ⟨id, onlyWay⟩

theorem noneKept_iff :
    (∀ interface, table.Implementable interface → ∀ id,
      table.fillInterfaceImplementationCache.implementation interface ≠ .heldBy id) ↔
      ∀ interface, table.Implementable interface →
        table.Fenced false interface ∨ (table.ways false interface).length ≠ 1 := by
  simp only [ne_eq, implementation_eq_heldBy_iff, ← ne_heldBy_iff]

theorem noneKeptDirect_iff :
    (∀ interface, table.Nameable interface → ∀ id,
      table.fillInterfaceImplementationCache.direct interface ≠ .heldBy id) ↔
      ∀ interface, table.Nameable interface →
        table.Fenced true interface ∨ (table.ways true interface).length ≠ 1 := by
  simp only [ne_eq, direct_eq_heldBy_iff, ← ne_heldBy_iff]

/-- Where no interface that applications can get at is kept, the bound calls are right. -/
theorem sameMethod_of_noneKept
    {interface receiver : Nat} {name signature : String} {klass : Klass} {target : Method}
    (noneKept : ∀ interface, table.Implementable interface → ∀ id,
      table.fillInterfaceImplementationCache.implementation interface ≠ .heldBy id)
    (noneKeptDirect : ∀ interface, table.Nameable interface → ∀ id,
      table.fillInterfaceImplementationCache.direct interface ≠ .heldBy id)
    (extends' : table.ExtendedBy extended)
    (isKlass : extended.klassAt receiver = some klass)
    (isClass : klass.isInterface = false)
    (implements : extended.Implements receiver interface)
    (dispatched : extended.interfaceDispatch receiver name signature = some target)
    (isDevirtualised :
      (table.resolveInvokeInterface interface name signature).isDevirtualised) :
    extended.callee receiver (table.resolveInvokeInterface interface name signature) =
      some target := by
  obtain ⟨id, named, implementing, method, found, ⟨interfaceKlass, isInterfaceKlass, isInterface⟩,
    isMethod, way⟩ := resolveInvokeInterface_cases isDevirtualised
  obtain ⟨reaches, isNamed⟩ := lookupInAllInterfaces_reaches found
  obtain ⟨namedKlass, isNamedKlass, namedMember, namedFits, _⟩ := findLocalMethod_facts isNamed
  have inImage := klassAt_lt isNamedKlass
  obtain ⟨isFound, isPublic, isVirtual⟩ := implementingMethod_eq_some_iff.1 isMethod
  -- the receiver has the interface that declares the method
  have implementsNamed : extended.Implements receiver id := by
    obtain ⟨super, above, declared, declares, toInterface⟩ := implements
    exact ⟨super, above, declared, declares,
      toInterface.trans (superinterfaces_in_extended extends' reaches)⟩
  rcases way with ⟨held, resolutionEq⟩ | ⟨held, resolutionEq⟩
  · have receiverEq := sole_implementing_class noneKept held extends' inImage isKlass isClass
      implementsNamed
    subst receiverEq
    have receiverInside : receiver < table.classes.length := by
      obtain ⟨_, inChain, _, isHolder, _⟩ := searchChain_facts isFound
      rcases ReflTransGen.cases_head (reaches_of_mem_chain inChain) with
        holderEq | ⟨_, step, _⟩
      · rw [holderEq]
        exact klassAt_lt isHolder
      · exact (isSuper_lt step).1
    rw [resolutionEq]
    have looked := lookupMethod_nonStatic isFound isVirtual
    rw [← lookupMethod_extended name signature true extends' receiverInside] at looked
    rw [interfaceDispatch_eq_some_iff, looked] at dispatched
    exact dispatched.1
  · obtain ⟨above, listingInside⟩ := sole_listing_class noneKeptDirect held extends' inImage
      isKlass isClass implementsNamed
    have notInitializer : method.isObjectInitializer = false := by
      obtain ⟨_, _, _, _, _, fits, _⟩ := searchChain_facts isFound
      have namedPlain : named.isObjectInitializer = false := by
        obtain ⟨other, isOther, otherInterface⟩ :=
          isInterface_of_declares isInterfaceKlass isInterface reaches
        rw [isNamedKlass] at isOther
        cases isOther
        exact table.noInitializers isNamedKlass otherInterface namedMember
      rw [Method.isObjectInitializer, (matches_iff.mp fits).1, ← (matches_iff.mp namedFits).1]
      exact namedPlain
    rw [resolutionEq, ← resolveMethodRef_extended extends' listingInside]
    rw [← lookupMethod_extended name signature false extends' listingInside] at isFound
    exact callee_of_listing_class above isFound isVirtual isPublic notInitializer dispatched

/-- The romizer's interface calls are safe if and only if every interface that
applications can get at is covered. -/
theorem interfaceCallsSafe_iff_covered (table : ClassTable) :
    table.InterfaceCallsSafe ↔ table.Covered := by
  constructor
  · intro safe
    exact ⟨noneKept_iff.1 safe.noneKept, noneKeptDirect_iff.1 safe.noneKeptDirect⟩
  · intro covered
    have noneKept := noneKept_iff.2 covered.implementation
    have noneKeptDirect := noneKeptDirect_iff.2 covered.direct
    refine ⟨?_, noneKept, noneKeptDirect⟩
    intro extended interface name signature receiver klass target extends' isKlass isClass
      implements dispatched isDevirtualised
    exact sameMethod_of_noneKept noneKept noneKeptDirect extends' isKlass isClass implements
      dispatched isDevirtualised

end ClassTable

/-! ## An interface two steps above a visible one -/

/-- `void run()` of a class or interface. -/
def runOf (holder : Nat) : Method :=
  ⟨"run", "()V", .isPublic, false, false, holder⟩

def hiddenInterface (interfaces : List Nat) (methods : List (Option Method)) : Klass :=
  ⟨true, false, false, true, false, some 0, interfaces, methods⟩

/-- `Object`; hidden interfaces 1 and 2, where 2 extends 1; the visible interface 3, which
extends 2; and the hidden class 4, which implements 1. -/
def imageClasses : List (Option Klass) :=
  [some ⟨false, false, true, true, false, none, [], []⟩,
    some (hiddenInterface [] [some (runOf 1)]),
    some (hiddenInterface [1] []),
    some ⟨true, false, true, true, false, some 0, [2], []⟩,
    some ⟨false, true, false, true, false, some 0, [1], [some (runOf 4)]⟩]

/-- An application class that implements the visible interface. -/
def applicationClass : Option Klass :=
  some ⟨false, false, true, false, false, some 0, [3], [some (runOf 5)]⟩

def image : ClassTable where
  classes := imageClasses
  height := id
  superLegal := by
    intro id super klass isKlass superEq
    rcases id with _ | _ | _ | _ | _ | _ <;> cases isKlass <;> cases superEq <;>
      exact ⟨by decide, _, rfl, rfl, rfl⟩
  interfacesLegal := by
    intro id interface klass isKlass member
    rcases id with _ | _ | _ | _ | _ | _ <;> cases isKlass <;>
      simp only [hiddenInterface, List.not_mem_nil, List.mem_singleton] at member <;>
      subst member <;> exact ⟨by decide, _, rfl, rfl⟩
  interfaceSuper := by
    intro id super klass superKlass isKlass isInterface superEq isSuper
    rcases id with _ | _ | _ | _ | _ | _ <;> cases isKlass <;> cases superEq <;>
      cases isSuper <;> exact ⟨rfl, rfl⟩
  holders := by
    intro id klass method isKlass member
    rcases id with _ | _ | _ | _ | _ | _ <;> cases isKlass <;>
      simp_all [hiddenInterface, runOf]
  noInitializers := by
    intro id klass method isKlass isInterface member
    rcases id with _ | _ | _ | _ | _ | _ <;> cases isKlass <;>
      simp_all [hiddenInterface, runOf, Method.isObjectInitializer]
  finalKept := by
    intro id super klass superKlass method other _ isSuper member isFinal
    rcases super with _ | _ | _ | _ | _ | _ <;> cases isSuper <;>
      simp_all [hiddenInterface, runOf, IsFinalVirtual]

def imageWithApplication : ClassTable where
  classes := imageClasses ++ [applicationClass]
  height := id
  superLegal := by
    intro id super klass isKlass superEq
    rcases id with _ | _ | _ | _ | _ | _ | _ <;> cases isKlass <;> cases superEq <;>
      exact ⟨by decide, _, rfl, rfl, rfl⟩
  interfacesLegal := by
    intro id interface klass isKlass member
    rcases id with _ | _ | _ | _ | _ | _ | _ <;> cases isKlass <;>
      simp only [hiddenInterface, List.not_mem_nil, List.mem_singleton] at member <;>
      subst member <;> exact ⟨by decide, _, rfl, rfl⟩
  interfaceSuper := by
    intro id super klass superKlass isKlass isInterface superEq isSuper
    rcases id with _ | _ | _ | _ | _ | _ | _ <;> cases isKlass <;> cases superEq <;>
      cases isSuper <;> exact ⟨rfl, rfl⟩
  holders := by
    intro id klass method isKlass member
    rcases id with _ | _ | _ | _ | _ | _ | _ <;> cases isKlass <;>
      simp_all [hiddenInterface, runOf]
  noInitializers := by
    intro id klass method isKlass isInterface member
    rcases id with _ | _ | _ | _ | _ | _ | _ <;> cases isKlass <;>
      simp_all [hiddenInterface, runOf, Method.isObjectInitializer]
  finalKept := by
    intro id super klass superKlass method other _ isSuper member isFinal
    rcases super with _ | _ | _ | _ | _ | _ | _ <;> cases isSuper <;>
      simp_all [hiddenInterface, runOf, IsFinalVirtual]

theorem image_extendedBy : image.ExtendedBy imageWithApplication where
  added := ⟨[applicationClass], rfl⟩
  superVisible := by
    intro id super isApplication isSuper inImage
    obtain ⟨klass, isKlass, superEq⟩ := isSuper
    rcases id with _ | _ | _ | _ | _ | _ | _ <;> cases isKlass <;> cases superEq
    · exact absurd isApplication (by decide)
    · exact absurd isApplication (by decide)
    · exact absurd isApplication (by decide)
    · exact absurd isApplication (by decide)
    · exact ⟨_, rfl, rfl⟩
  interfacesVisible := by
    intro id interface isApplication declares inImage
    obtain ⟨klass, isKlass, member⟩ := declares
    rcases id with _ | _ | _ | _ | _ | _ | _ <;> cases isKlass
    · exact absurd isApplication (by decide)
    · exact absurd isApplication (by decide)
    · exact absurd isApplication (by decide)
    · exact absurd isApplication (by decide)
    · exact absurd isApplication (by decide)
    · cases List.mem_singleton.mp member
      exact ⟨_, rfl, rfl⟩

theorem application_implements : imageWithApplication.Implements 5 1 := by
  refine ⟨5, .refl, 3, ⟨_, rfl, List.mem_singleton.mpr rfl⟩, ?_⟩
  have toSecond : Declares imageWithApplication.classes 3 2 :=
    ⟨_, rfl, List.mem_singleton.mpr rfl⟩
  have toFirst : Declares imageWithApplication.classes 2 1 :=
    ⟨_, rfl, List.mem_singleton.mpr rfl⟩
  exact .head toSecond (.single toFirst)

/-- A call of interface 1 on an object of the application runs the method of class 4. -/
theorem application_misdispatched :
    imageWithApplication.interfaceDispatch 5 "run" "()V" = some (runOf 5) ∧
      image.resolveInvokeInterface 1 "run" "()V" = .bound (runOf 4) ∧
      ¬ image.InterfaceCallsSafe := by
  have dispatched : imageWithApplication.interfaceDispatch 5 "run" "()V" = some (runOf 5) := by
    decide
  have resolved : image.resolveInvokeInterface 1 "run" "()V" = .bound (runOf 4) := by
    decide
  refine ⟨dispatched, resolved, ?_⟩
  intro safe
  have sameMethod := safe.sameMethod image_extendedBy
    (show imageWithApplication.klassAt 5 = applicationClass from rfl) rfl
    application_implements dispatched (by rw [resolved]; rfl)
  rw [resolved] at sameMethod
  exact absurd sameMethod (by decide)

end PicoJvm.Romizer
