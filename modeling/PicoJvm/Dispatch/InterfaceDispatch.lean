import PicoJvm.Dispatch.Itable
import Mathlib.Logic.Relation
import Mathlib.Algebra.Order.BigOperators.Group.List
import Mathlib.Algebra.Order.Group.Nat
import Mathlib.Data.List.Nodup

/-!
# Interface dispatch

The table of a class has one part for each superinterface, laid out one behind
the other, and fits the space reserved for it. A slot is where the interface's
method array says it is exactly as long as no removed static initialiser stands
before an instance method.
-/

namespace PicoJvm.Dispatch

/-! ## The order in which tables are written -/

variable (interfaces : Interfaces)

/-- The interfaces `update_local_itables` writes tables for. -/
def writtenInterfaces (inherited : List Nat) : Nat → List Nat → List Nat
  | 0, _ => []
  | fuel + 1, locals =>
      locals.flatMap fun interface =>
        (if interface ∈ inherited then [] else [interface]) ++
          writtenInterfaces inherited fuel (interfaces.superinterfaces interface)

theorem writtenInterfaces_succ (inherited : List Nat) (fuel : Nat) (locals : List Nat) :
    writtenInterfaces interfaces inherited (fuel + 1) locals =
      locals.flatMap fun interface =>
        (if interface ∈ inherited then [] else [interface]) ++
          writtenInterfaces interfaces inherited fuel (interfaces.superinterfaces interface) :=
  rfl

/-- A table is written for each interface of that list in turn. -/
theorem updateLocalItables_eq
    (inherited : List Nat) (klass : Klass) (supers : List Klass)
    (fuel : Nat) (locals : List Nat) (table : Itable) :
    updateLocalItables interfaces inherited klass supers fuel locals table =
      (writtenInterfaces interfaces inherited fuel locals).foldl
        (itableCopyDown interfaces klass supers) table := by
  induction fuel generalizing locals table with
  | zero =>
      rfl
  | succ fuel inductionHypothesis =>
      simp only [updateLocalItables, writtenInterfaces_succ]
      induction locals generalizing table with
      | nil =>
          rfl
      | cons interface rest restHypothesis =>
          rw [List.foldl_cons, List.flatMap_cons, List.foldl_append,
            restHypothesis, inductionHypothesis, List.foldl_append]
          split
          · rfl
          · rfl

/-- A set of interfaces that contains the superinterfaces of its members. -/
def Closed (ids : List Nat) : Prop :=
  ∀ interface ∈ ids, ∀ super ∈ interfaces.superinterfaces interface, super ∈ ids

variable {interfaces}

theorem writtenInterfaces_of_subset
    {inherited locals : List Nat}
    (closed : Closed interfaces inherited)
    (subset : ∀ interface ∈ locals, interface ∈ inherited)
    (fuel : Nat) :
    writtenInterfaces interfaces inherited fuel locals = [] := by
  induction fuel generalizing locals with
  | zero =>
      rfl
  | succ fuel inductionHypothesis =>
      simp only [writtenInterfaces_succ, List.flatMap_eq_nil_iff, List.append_eq_nil_iff]
      intro interface member
      exact ⟨if_pos (subset interface member),
        inductionHypothesis (closed interface (subset interface member))⟩

/-- Space is reserved for the same interfaces, in the same order. -/
theorem reservedInterfaces_eq
    {inherited : List Nat}
    (closed : Closed interfaces inherited)
    (fuel : Nat) (locals : List Nat) :
    reservedInterfaces interfaces inherited fuel locals =
      writtenInterfaces interfaces inherited fuel locals := by
  induction fuel generalizing locals with
  | zero =>
      rfl
  | succ fuel inductionHypothesis =>
      simp only [reservedInterfaces, writtenInterfaces_succ]
      congr 1
      funext interface
      split
      · rename_i member
        rw [writtenInterfaces_of_subset closed (closed interface member)]
        rfl
      · rw [inductionHypothesis]
        rfl

/-- With fuel above their depth, the written interfaces and the inherited ones
together contain the declared interfaces and all their superinterfaces. -/
theorem mem_writtenInterfaces
    {inherited locals : List Nat} {fuel interface super : Nat}
    (enough : ∀ interface ∈ locals, interfaces.depth interface < fuel)
    (member : interface ∈ locals)
    (reaches : Relation.ReflTransGen
      (fun lower upper => upper ∈ interfaces.superinterfaces lower) interface super) :
    super ∈ inherited ∨ super ∈ writtenInterfaces interfaces inherited fuel locals := by
  induction fuel generalizing locals interface with
  | zero =>
      exact absurd (enough interface member) (Nat.not_lt_zero _)
  | succ fuel inductionHypothesis =>
      simp only [writtenInterfaces_succ, List.mem_flatMap, List.mem_append]
      rcases Relation.ReflTransGen.cases_head reaches with rfl | ⟨next, step, later⟩
      · by_cases known : interface ∈ inherited
        · exact .inl known
        · exact .inr ⟨interface, member, .inl (by simp [known])⟩
      · have deeper : ∀ next ∈ interfaces.superinterfaces interface,
            interfaces.depth next < fuel := by
          intro next step
          have := interfaces.deeper interface next step
          have := enough interface member
          omega
        rcases inductionHypothesis deeper step later with known | written
        · exact .inl known
        · exact .inr ⟨interface, member, .inr written⟩

theorem exists_reaches_of_mem_writtenInterfaces
    {inherited locals : List Nat} {fuel super : Nat}
    (written : super ∈ writtenInterfaces interfaces inherited fuel locals) :
    ∃ interface ∈ locals, Relation.ReflTransGen
      (fun lower upper => upper ∈ interfaces.superinterfaces lower) interface super := by
  induction fuel generalizing locals with
  | zero =>
      cases written
  | succ fuel inductionHypothesis =>
      simp only [writtenInterfaces_succ, List.mem_flatMap, List.mem_append] at written
      obtain ⟨interface, member, here | later⟩ := written
      · split at here
        · cases here
        · rw [List.mem_singleton.mp here]
          exact ⟨interface, member, .refl⟩
      · obtain ⟨next, step, reaches⟩ := inductionHypothesis later
        exact ⟨interface, member, .head step reaches⟩

theorem lt_bound
    {locals : List Nat} {interface : Nat}
    (member : interface ∈ locals) :
    interfaces.depth interface < interfaces.bound locals :=
  Nat.lt_succ_of_le (List.le_sum_of_mem (List.mem_map_of_mem member))

/-! ## The layout -/

section Layout

variable (targets : Nat → List Target)

/-- Entries for some interfaces whose methods are laid out from a place on. -/
def layout : Nat → List Nat → List (Nat × Nat)
  | _, [] => []
  | start, interface :: rest =>
      (interface, start) :: layout (start + (targets interface).length) rest

variable {targets}

@[simp]
theorem layout_nil (start : Nat) :
    layout targets start [] = [] :=
  rfl

@[simp]
theorem layout_cons (start interface : Nat) (rest : List Nat) :
    layout targets start (interface :: rest) =
      (interface, start) :: layout targets (start + (targets interface).length) rest :=
  rfl

/-- The first entry of an interface points to its methods, and the next entry, or the
end of the words, to the place behind them. -/
theorem layout_find
    {ids : List Nat} {interface : Nat}
    (member : interface ∈ ids)
    (start : Nat) :
    ∃ place before after,
      (layout targets start ids).findIdx? (fun entry => decide (entry.1 = interface)) =
          some place ∧
        (layout targets start ids).find? (fun entry => decide (entry.1 = interface)) =
          some (interface, start + before.length) ∧
        (layout targets start ids)[place]? = some (interface, start + before.length) ∧
        ids.flatMap targets = before ++ (targets interface ++ after) ∧
        ((layout targets start ids)[place + 1]? = none ∧ after = [] ∨
          ∃ next, (layout targets start ids)[place + 1]? =
            some (next, start + before.length + (targets interface).length)) := by
  induction ids generalizing start with
  | nil =>
      cases member
  | cons head rest inductionHypothesis =>
      by_cases isHead : head = interface
      · subst isHead
        refine ⟨0, [], rest.flatMap targets, by simp [List.findIdx?_cons],
          by simp, by simp, by simp, ?_⟩
        cases rest with
        | nil =>
            exact .inl (by simp)
        | cons next rest =>
            exact .inr ⟨next, by simp⟩
      · obtain ⟨place, before, after, found, entry, atPlace, words, next⟩ :=
          inductionHypothesis (List.mem_of_ne_of_mem (Ne.symm isHead) member)
            (start + (targets head).length)
        refine ⟨place + 1, targets head ++ before, after, ?_, ?_, ?_, ?_, ?_⟩
        · simp [List.findIdx?_cons, isHead, found]
        · simp [isHead, entry, Nat.add_assoc]
        · simp [atPlace, Nat.add_assoc]
        · simp [words]
        · simpa [Nat.add_assoc] using next

end Layout

/-- The methods of an interface in the table of a class. -/
def classTargets (interfaces : Interfaces) (klass : Klass) (supers : List Klass)
    (interface : Nat) : List Target :=
  copyMethods (klass :: supers) klass.isAbstract
    (interfaces.methods interface (decide (interface ∈ klass.initialisedInterfaces)))

theorem foldl_itableCopyDown
    (klass : Klass) (supers : List Klass) (ids : List Nat) (table : Itable) :
    ids.foldl (itableCopyDown interfaces klass supers) table =
      { entries :=
          table.entries ++ layout (classTargets interfaces klass supers) table.words.length ids
        words := table.words ++ ids.flatMap (classTargets interfaces klass supers) } := by
  induction ids generalizing table with
  | nil =>
      simp
  | cons interface rest inductionHypothesis =>
      rw [List.foldl_cons, inductionHypothesis]
      simp [itableCopyDown, classTargets]

theorem layout_interfaces
    (targets : Nat → List Target) (start : Nat) (ids : List Nat) :
    (layout targets start ids).map Prod.fst = ids := by
  induction ids generalizing start with
  | nil =>
      rfl
  | cons interface rest inductionHypothesis =>
      simp [inductionHypothesis]

/-- The table of a class whose tables were written in a known order. -/
structure LaidOut (interfaces : Interfaces) (klass : Klass) (supers : List Klass)
    (ids : List Nat) (table : Itable) : Prop where
  entries : table.entries = layout (classTargets interfaces klass supers) 0 ids
  words : table.words = ids.flatMap (classTargets interfaces klass supers)

namespace LaidOut

variable {klass : Klass} {supers : List Klass} {ids : List Nat} {table : Itable}
  {interface : Nat}

theorem interfaces_eq
    (laidOut : LaidOut interfaces klass supers ids table) :
    table.interfaces = ids := by
  rw [Itable.interfaces, laidOut.entries, layout_interfaces]

theorem tableOf_eq
    (laidOut : LaidOut interfaces klass supers ids table)
    (member : interface ∈ ids) :
    table.tableOf interface = classTargets interfaces klass supers interface := by
  obtain ⟨place, before, after, found, _, atPlace, words, next⟩ :=
    layout_find member 0
  simp only [Nat.zero_add] at atPlace next
  unfold Itable.tableOf
  rw [laidOut.entries, found]
  simp only [List.getD_eq_getElem?_getD, atPlace, Option.getD_some]
  rw [laidOut.words, words]
  rcases next with ⟨noNext, rfl⟩ | ⟨next, nextEq⟩
  · simp [noNext, List.take_append]
  · simp [nextEq, List.take_append]

theorem fastInvokeInterface_eq
    (laidOut : LaidOut interfaces klass supers ids table)
    (member : interface ∈ ids)
    {index : Nat} {target : Target}
    (stored : (table.tableOf interface)[index]? = some target) :
    fastInvokeInterface table interface index = some target := by
  rw [laidOut.tableOf_eq member] at stored
  obtain ⟨place, before, after, _, entry, _, words, _⟩ := layout_find member 0
  simp only [Nat.zero_add] at entry
  unfold fastInvokeInterface
  rw [laidOut.entries, entry, laidOut.words, words]
  have inside := (List.getElem?_eq_some_iff.mp stored).1
  simp [List.getElem?_append_right, List.getElem?_append_left inside, stored]

end LaidOut

/-! ## Slots and method arrays -/

theorem copyMethods_map_some
    (klasses : List Klass) (isAbstract : Bool) (methods : List Method) :
    copyMethods klasses isAbstract (methods.map some) =
      methods.map (targetFor klasses isAbstract) := by
  induction methods with
  | nil =>
      rfl
  | cons method rest inductionHypothesis =>
      exact congrArg (_ :: ·) inductionHypothesis

/-- Up to the static initialiser, a removal changes nothing. -/
theorem copyMethods_removeClinit_getElem?
    {klasses : List Klass} {isAbstract : Bool} {methods : List Method}
    {index : Nat} {method : Method}
    (atIndex : methods[index]? = some method)
    (ahead : ∀ place initialiser, methods[place]? = some initialiser →
      initialiser.isClassInitializer = true → index < place) :
    (copyMethods klasses isAbstract (removeClinit (methods.map some)))[index]? =
      some (targetFor klasses isAbstract method) := by
  induction methods generalizing index with
  | nil =>
      simp at atIndex
  | cons head rest inductionHypothesis =>
      have notInitialiser : head.isClassInitializer = false := by
        by_contra isInitialiser
        exact absurd (ahead 0 head rfl (by simpa using isInitialiser)) (Nat.not_lt_zero _)
      simp only [List.map_cons, removeClinit_some, notInitialiser, Bool.false_eq_true, if_false,
        copyMethods_some]
      cases index with
      | zero =>
          simp only [List.getElem?_cons_zero, Option.some.injEq] at atIndex
          simp [atIndex]
      | succ index =>
          simp only [List.getElem?_cons_succ] at atIndex ⊢
          refine inductionHypothesis atIndex ?_
          intro place initialiser atPlace isInitialiser
          exact Nat.lt_of_succ_lt_succ
            (ahead (place + 1) initialiser (by simpa using atPlace) isInitialiser)

/-- A removal leaves one word less. -/
theorem length_copyMethods_removeClinit
    (klasses : List Klass) (isAbstract : Bool)
    {methods : List Method} {initialiser : Method}
    (member : initialiser ∈ methods)
    (isInitialiser : initialiser.isClassInitializer = true) :
    (copyMethods klasses isAbstract (removeClinit (methods.map some))).length + 1 =
      methods.length := by
  induction methods with
  | nil =>
      cases member
  | cons head rest inductionHypothesis =>
      simp only [List.map_cons, removeClinit_some]
      split
      · simp [copyMethods_map_some]
      · rename_i notInitialiser
        have later : initialiser ∈ rest := by
          rcases List.mem_cons.mp member with rfl | later
          · exact absurd isInitialiser notInitialiser
          · exact later
        simp [inductionHypothesis later]

/-- The index of an instance method in a method array without repetitions, whether or
not the static initialiser has been removed. -/
theorem itableIndex_eq
    {methods : List Method} {index : Nat} {method : Method}
    (distinct : methods.Nodup)
    (atIndex : methods[index]? = some method)
    (notInitialiser : method.isClassInitializer = false)
    (removed : Bool) :
    itableIndex (if removed then removeClinit (methods.map some) else methods.map some)
      method = index := by
  induction methods generalizing index removed with
  | nil =>
      simp at atIndex
  | cons head rest inductionHypothesis =>
      rw [List.nodup_cons] at distinct
      cases index with
      | zero =>
          simp only [List.getElem?_cons_zero, Option.some.injEq] at atIndex
          subst atIndex
          cases removed <;> simp [itableIndex, removeClinit_some, notInitialiser, List.findIdx_cons]
      | succ index =>
          simp only [List.getElem?_cons_succ] at atIndex
          have different : head ≠ method := by
            rintro rfl
            exact distinct.1 (List.mem_of_getElem? atIndex)
          have kept := inductionHypothesis distinct.2 atIndex false
          have gone := inductionHypothesis distinct.2 atIndex true
          simp only [itableIndex, Bool.false_eq_true, if_false, if_true] at kept gone ⊢
          cases removed with
          | false =>
              simp [List.findIdx_cons, different, kept]
          | true =>
              by_cases isInitialiser : head.isClassInitializer = true
              · simp [removeClinit_some, isInitialiser, List.findIdx_cons, kept]
              · simp [removeClinit_some, isInitialiser, List.findIdx_cons, different, gone]

theorem Interfaces.declared_nodup (interfaces : Interfaces) (interface : Nat) :
    (interfaces.declared interface).Nodup :=
  List.Nodup.of_map _ (interfaces.distinct interface)

/-- An interface has one static initialiser at most. -/
theorem Interfaces.initialiser_unique
    {interface place place' : Nat} {initialiser initialiser' : Method}
    (atPlace : (interfaces.declared interface)[place]? = some initialiser)
    (atPlace' : (interfaces.declared interface)[place']? = some initialiser')
    (isInitialiser : initialiser.isClassInitializer = true)
    (isInitialiser' : initialiser'.isClassInitializer = true) :
    place = place' := by
  have inside := (List.getElem?_eq_some_iff.mp atPlace).1
  refine (List.getElem?_inj (by simpa using inside) (interfaces.distinct interface)).mp ?_
  simp only [Method.isClassInitializer, Method.matches, decide_eq_true_eq] at *
  simp [atPlace, atPlace', isInitialiser, isInitialiser']

/-! ## Interface dispatch of a class -/

/-- A direct or inherited superinterface of a class. -/
def IsSuperinterface (interfaces : Interfaces) (klasses : List Klass) (interface : Nat) :
    Prop :=
  ∃ klass ∈ klasses, ∃ declared ∈ klass.localInterfaces,
    Relation.ReflTransGen (fun lower upper => upper ∈ interfaces.superinterfaces lower)
      declared interface

/-- The slot of an instance method holds the target of the class, in the table of
the interface and on the way `invokeinterface` reads it, whenever the index is
looked up. -/
def SlotHolds (interfaces : Interfaces) (klass : Klass) (supers : List Klass)
    (table : Itable) (interface : Nat) (method : Method) : Prop :=
  ∀ removedNow,
    let index := itableIndex (interfaces.methods interface removedNow) method
    let target := targetFor (klass :: supers) klass.isAbstract method
    (table.tableOf interface)[index]? = some target ∧
      fastInvokeInterface table interface index = some target

/-- The table of a class serves `invokeinterface`. -/
structure ServesInterfaces (interfaces : Interfaces) (klass : Klass) (supers : List Klass)
    (superTable table : Itable) : Prop where
  /-- The writes stay in the space reserved. -/
  entriesFit : table.entries.length ≤ (computeItableSize interfaces klass superTable).1
  wordsFit : itableSize table.entries.length table.words.length ≤
    (computeItableSize interfaces klass superTable).2
  complete : ∀ interface, IsSuperinterface interfaces (klass :: supers) interface →
    interface ∈ table.interfaces
  slots : ∀ interface, IsSuperinterface interfaces (klass :: supers) interface →
    ∀ method ∈ interfaces.declared interface, method.isStatic = false →
      SlotHolds interfaces klass supers table interface method

/-- No instance method comes behind the static initialiser. -/
def InitialiserLast (interfaces : Interfaces) (interface : Nat) : Prop :=
  ∀ (place index : Nat) (initialiser method : Method),
    (interfaces.declared interface)[place]? = some initialiser →
      (interfaces.declared interface)[index]? = some method →
        initialiser.isClassInitializer = true → method.isStatic = false → index < place

/-! ## The main result -/

section Main

variable {klass : Klass} {supers : List Klass} {superTable table : Itable}

/-- The interfaces of a linked class: those of the superclass, then its own. -/
theorem initializeItable_laidOut
    (linked : initializeItable interfaces supers = some superTable)
    (linkedHere : initializeItable interfaces (klass :: supers) = some table) :
    LaidOut interfaces klass supers
      (superTable.interfaces ++
        writtenInterfaces interfaces superTable.interfaces
          (interfaces.bound klass.localInterfaces) klass.localInterfaces)
      table := by
  simp only [initializeItable, linked] at linkedHere
  split at linkedHere
  · cases linkedHere
  · cases linkedHere
    rw [updateLocalItables_eq, ← List.foldl_append, foldl_itableCopyDown]
    exact ⟨by simp [Itable.empty], by simp [Itable.empty]⟩

/-- The superclass of a linked class is linked. -/
theorem exists_superTable
    (linkedHere : initializeItable interfaces (klass :: supers) = some table) :
    ∃ superTable, initializeItable interfaces supers = some superTable := by
  cases linked : initializeItable interfaces supers with
  | none =>
      simp [initializeItable, linked] at linkedHere
  | some superTable =>
      exact ⟨superTable, rfl⟩

/-- A table contains exactly the direct and inherited superinterfaces. -/
theorem mem_interfaces_iff
    {klasses : List Klass} {table : Itable} {interface : Nat}
    (linked : initializeItable interfaces klasses = some table) :
    interface ∈ table.interfaces ↔ IsSuperinterface interfaces klasses interface := by
  induction klasses generalizing table interface with
  | nil =>
      cases linked
      simp [IsSuperinterface, Itable.interfaces, Itable.empty]
  | cons klass supers inductionHypothesis =>
      obtain ⟨superTable, linkedSuper⟩ := exists_superTable linked
      rw [(initializeItable_laidOut linkedSuper linked).interfaces_eq, List.mem_append,
        inductionHypothesis linkedSuper]
      constructor
      · rintro (⟨above, member, declared, reaches⟩ | written)
        · exact ⟨above, List.mem_cons_of_mem _ member, declared, reaches⟩
        · exact ⟨klass, List.mem_cons_self, exists_reaches_of_mem_writtenInterfaces written⟩
      · rintro ⟨above, member, declared, isLocal, reaches⟩
        rcases List.mem_cons.mp member with rfl | higher
        · rcases mem_writtenInterfaces (fun _ isLocal => lt_bound isLocal) isLocal reaches with
            known | written
          · exact .inl ((inductionHypothesis linkedSuper).mp known)
          · exact .inr written
        · exact .inl ⟨above, higher, declared, isLocal, reaches⟩

theorem interfaces_closed
    {klasses : List Klass} {table : Itable}
    (linked : initializeItable interfaces klasses = some table) :
    Closed interfaces table.interfaces := by
  intro interface member super step
  obtain ⟨klass, above, declared, isLocal, reaches⟩ := (mem_interfaces_iff linked).mp member
  exact (mem_interfaces_iff linked).mpr ⟨klass, above, declared, isLocal, reaches.tail step⟩

theorem length_copyMethods_le
    (klasses : List Klass) (isAbstract : Bool) (methods : List (Option Method)) :
    (copyMethods klasses isAbstract methods).length ≤ methods.length := by
  induction methods with
  | nil =>
      exact Nat.le_refl _
  | cons entry rest inductionHypothesis =>
      cases entry with
      | none =>
          exact Nat.le_succ_of_le inductionHypothesis
      | some method =>
          exact Nat.succ_le_succ inductionHypothesis

theorem length_removeClinit (methods : List (Option Method)) :
    (removeClinit methods).length = methods.length := by
  induction methods with
  | nil =>
      rfl
  | cons entry rest inductionHypothesis =>
      cases entry with
      | none =>
          simp [inductionHypothesis]
      | some method =>
          simp only [removeClinit_some]
          split
          · rfl
          · simp [inductionHypothesis]

theorem length_methods (interface : Nat) (removed : Bool) :
    (interfaces.methods interface removed).length = (interfaces.declared interface).length := by
  cases removed <;> simp [Interfaces.methods, length_removeClinit]

theorem length_flatMap_classTargets_le
    (interfaces : Interfaces) (klass : Klass) (supers : List Klass) (ids : List Nat) :
    (ids.flatMap (classTargets interfaces klass supers)).length ≤
      (ids.map fun interface => (interfaces.declared interface).length).sum := by
  induction ids with
  | nil =>
      exact Nat.le_refl _
  | cons interface rest inductionHypothesis =>
      have fits : (classTargets interfaces klass supers interface).length ≤
          (interfaces.declared interface).length := by
        rw [← length_methods interface (decide (interface ∈ klass.initialisedInterfaces))]
        exact length_copyMethods_le _ _ _
      simp only [List.flatMap_cons, List.length_append, List.map_cons, List.sum_cons]
      omega

/-- The space reserved for a class is enough. -/
theorem itable_fits
    (linked : initializeItable interfaces supers = some superTable)
    (linkedHere : initializeItable interfaces (klass :: supers) = some table) :
    table.entries.length ≤ (computeItableSize interfaces klass superTable).1 ∧
      itableSize table.entries.length table.words.length ≤
        (computeItableSize interfaces klass superTable).2 := by
  have laidOut := initializeItable_laidOut linked linkedHere
  have lengthEq : table.entries.length = table.interfaces.length := by
    simp [Itable.interfaces]
  have wordsFit := length_flatMap_classTargets_le interfaces klass supers
    (superTable.interfaces ++ writtenInterfaces interfaces superTable.interfaces
      (interfaces.bound klass.localInterfaces) klass.localInterfaces)
  rw [← laidOut.words, List.map_append, List.sum_append] at wordsFit
  rw [lengthEq, laidOut.interfaces_eq]
  simp only [computeItableSize, itableSize, List.length_append,
    reservedInterfaces_eq (interfaces_closed linked)]
  constructor
  · exact Nat.le_refl _
  · omega

/-- The slots of an interface whose initialiser stands last, or had not run. -/
theorem slotHolds_of_initialiserLast
    {interface : Nat} {method : Method}
    (linkedHere : initializeItable interfaces (klass :: supers) = some table)
    (isSuper : IsSuperinterface interfaces (klass :: supers) interface)
    (initialiserLast : interface ∈ klass.initialisedInterfaces →
      InitialiserLast interfaces interface)
    (member : method ∈ interfaces.declared interface)
    (isInstance : method.isStatic = false) :
    SlotHolds interfaces klass supers table interface method := by
  intro removedNow
  obtain ⟨superTable, linked⟩ := exists_superTable linkedHere
  have laidOut := initializeItable_laidOut linked linkedHere
  have isEntry := (mem_interfaces_iff linkedHere).mpr isSuper
  rw [laidOut.interfaces_eq] at isEntry
  obtain ⟨index, atIndex⟩ := List.getElem?_of_mem member
  have notInitialiser : method.isClassInitializer = false := by
    rw [← interfaces.staticIsInitializer interface method member, isInstance]
  have indexEq : itableIndex (interfaces.methods interface removedNow) method = index :=
    itableIndex_eq (interfaces.declared_nodup interface) atIndex notInitialiser removedNow
  have stored : (table.tableOf interface)[index]? =
      some (targetFor (klass :: supers) klass.isAbstract method) := by
    rw [laidOut.tableOf_eq isEntry, classTargets, Interfaces.methods]
    by_cases removed : interface ∈ klass.initialisedInterfaces
    · simp only [removed, decide_true, if_true]
      refine copyMethods_removeClinit_getElem? atIndex ?_
      intro place initialiser atPlace isInitialiser
      exact initialiserLast removed place index initialiser method atPlace atIndex
        isInitialiser isInstance
    · simp [removed, copyMethods_map_some, atIndex]
  simp only [indexEq]
  exact ⟨stored, laidOut.fastInvokeInterface_eq isEntry stored⟩

/-- When an instance method comes behind a removed initialiser, the last method of the
interface has no slot. -/
theorem initialiserLast_of_slots
    {interface : Nat}
    (linkedHere : initializeItable interfaces (klass :: supers) = some table)
    (isSuper : IsSuperinterface interfaces (klass :: supers) interface)
    (slots : ∀ method ∈ interfaces.declared interface, method.isStatic = false →
      SlotHolds interfaces klass supers table interface method)
    (removed : interface ∈ klass.initialisedInterfaces) :
    InitialiserLast interfaces interface := by
  intro place index initialiser method atPlace atIndex isInitialiser isInstance
  by_contra behind
  obtain ⟨superTable, linked⟩ := exists_superTable linkedHere
  have laidOut := initializeItable_laidOut linked linkedHere
  have isEntry := (mem_interfaces_iff linkedHere).mpr isSuper
  rw [laidOut.interfaces_eq] at isEntry
  have different : place ≠ index := by
    rintro rfl
    have member := List.mem_of_getElem? atPlace
    rw [atPlace] at atIndex
    cases atIndex
    rw [interfaces.staticIsInitializer interface _ member, isInitialiser] at isInstance
    cases isInstance
  have inside := (List.getElem?_eq_some_iff.mp atIndex).1
  obtain ⟨last, atLast⟩ : ∃ last, (interfaces.declared interface)[
      (interfaces.declared interface).length - 1]? = some last :=
    ⟨_, List.getElem?_eq_getElem (by omega)⟩
  have lastMember := List.mem_of_getElem? atLast
  have lastNotInitialiser : last.isClassInitializer = false := by
    by_contra isToo
    have := interfaces.initialiser_unique atPlace atLast isInitialiser (by simpa using isToo)
    omega
  have lastInstance : last.isStatic = false := by
    rw [interfaces.staticIsInitializer interface last lastMember, lastNotInitialiser]
  have stored := (slots last lastMember lastInstance false).1
  have indexEq : itableIndex (interfaces.methods interface false) last =
      (interfaces.declared interface).length - 1 :=
    itableIndex_eq (interfaces.declared_nodup interface) atLast lastNotInitialiser false
  have short := length_copyMethods_removeClinit (klass :: supers) klass.isAbstract
    (List.mem_of_getElem? atPlace) isInitialiser
  rw [indexEq, laidOut.tableOf_eq isEntry, classTargets, Interfaces.methods] at stored
  simp only [removed, decide_true, if_true] at stored
  have := (List.getElem?_eq_some_iff.mp stored).1
  omega

/-- Interface dispatch works for a linked class if and only if no superinterface whose
static initialiser was removed beforehand has an instance method behind it. -/
theorem servesInterfaces_iff
    (linked : initializeItable interfaces supers = some superTable)
    (linkedHere : initializeItable interfaces (klass :: supers) = some table) :
    ServesInterfaces interfaces klass supers superTable table ↔
      ∀ interface, IsSuperinterface interfaces (klass :: supers) interface →
        interface ∈ klass.initialisedInterfaces → InitialiserLast interfaces interface := by
  constructor
  · intro serves interface isSuper removed
    exact initialiserLast_of_slots linkedHere isSuper (serves.slots interface isSuper) removed
  · intro initialiserLast
    obtain ⟨entriesFit, wordsFit⟩ := itable_fits linked linkedHere
    refine ⟨entriesFit, wordsFit, ?_, ?_⟩
    · intro interface isSuper
      exact (mem_interfaces_iff linkedHere).mpr isSuper
    · intro interface isSuper method member isInstance
      exact slotHolds_of_initialiserLast linkedHere isSuper (initialiserLast interface isSuper)
        member isInstance

end Main

/-! ## An interface whose initialiser comes first -/

def clinit : Method := ⟨"<clinit>", "()V", .packagePrivate, true, false, 1⟩

/-- A public method without parameters or result. -/
def plainMethod (name : String) (holder : Nat) : Method :=
  ⟨name, "()V", .isPublic, false, false, holder⟩

/-- One interface, with class id 1. -/
def singleInterface (methods : List Method)
    (staticIsInitializer : ∀ method ∈ methods, method.isStatic = method.isClassInitializer)
    (distinct : (methods.map fun method => (method.name, method.signature)).Nodup) :
    Interfaces where
  declared interface := if interface = 1 then methods else []
  superinterfaces _ := []
  depth _ := 0
  deeper := by simp
  staticIsInitializer interface := by
    by_cases isOne : interface = 1
    · simpa [isOne] using staticIsInitializer
    · simp [isOne]
  distinct interface := by
    by_cases isOne : interface = 1
    · simpa [isOne] using distinct
    · simp [isOne]

def initialiserFirst : Interfaces :=
  singleInterface [clinit, plainMethod "open" 1, plainMethod "close" 1] (by decide) (by decide)

/-- A class that implements the interface, linked after its initialiser had run. -/
def implementor : Klass where
  classId := 2
  className := "Implementor"
  isAbstract := false
  isFinal := false
  methods := [some (plainMethod "open" 2), some (plainMethod "close" 2)]
  vtable := []
  localInterfaces := [1]
  initialisedInterfaces := [1]

def implementorTable : Itable :=
  ⟨[(1, 0)], [.method (plainMethod "open" 2), .method (plainMethod "close" 2)]⟩

/-- `open` is called on the implementor, and `close` runs. -/
theorem open_calls_close :
    initializeItable initialiserFirst [implementor] = some implementorTable ∧
      fastInvokeInterface implementorTable 1
          (itableIndex (initialiserFirst.methods 1 true) (plainMethod "open" 1)) =
        some (.method (plainMethod "close" 2)) ∧
      ¬ ServesInterfaces initialiserFirst implementor [] .empty implementorTable := by
  refine ⟨by decide, by decide, ?_⟩
  intro serves
  have isSuper : IsSuperinterface initialiserFirst [implementor] 1 :=
    ⟨implementor, List.mem_cons_self, 1, List.mem_cons_self, .refl⟩
  have slot := serves.slots 1 isSuper (plainMethod "open" 1) (by decide) rfl true
  exact absurd slot.2 (by decide)

def initialiserBehind : Interfaces :=
  singleInterface [plainMethod "open" 1, plainMethod "close" 1, clinit] (by decide) (by decide)

theorem initialiserBehind_servesInterfaces :
    initializeItable initialiserBehind [] = some .empty ∧
      initializeItable initialiserBehind [implementor] = some implementorTable ∧
      (ServesInterfaces initialiserBehind implementor [] .empty implementorTable ↔
        ∀ interface, IsSuperinterface initialiserBehind [implementor] interface →
          interface ∈ implementor.initialisedInterfaces →
            InitialiserLast initialiserBehind interface) :=
  ⟨rfl, by decide, servesInterfaces_iff rfl (by decide)⟩

end PicoJvm.Dispatch
