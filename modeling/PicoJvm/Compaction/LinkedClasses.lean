import Mathlib.Data.List.Nodup
import PicoJvm.Compaction.MethodTables

/-!
# Linked classes

What holds of the method tables and vtables of a class and its superclasses however they were
loaded, and that renaming keeps it.
-/

namespace PicoJvm.Compaction

open PicoJvm.Dispatch (Access)

/-- The same name and signature in the class file. -/
def SameKey (method other : Method) : Prop :=
  method.originalName = other.originalName ∧ method.signature = other.signature

/-- One class behind its superclasses. -/
structure Linked (isInterface : Nat → Prop) (klass : Klass) (supers : List Klass) : Prop where
  fresh : ∀ super ∈ supers, super.classId ≠ klass.classId
  isClass : ¬ isInterface klass.classId
  classNamed : klass.originalName ≠ unknown
  tables : ∀ method ∈ klass.methods, method.table = klass.classId
  holders : ∀ method ∈ klass.methods,
    method.holder = klass.classId ∨ isInterface method.holder ∧ supers ≠ []
  keys : ∀ method ∈ klass.methods, ∀ other ∈ klass.methods, SameKey method other → method = other
  named : ∀ method ∈ klass.methods, method.originalName ≠ unknown
  /-- The vtable holds methods of the class and of its superclasses. -/
  entries : ∀ method ∈ klass.vtable, method ∈ klass.methods ∨ method ∈ superVtable supers
  /-- An entry of the superclass is there, or a method of the class that overrides it. -/
  inherited : ∀ method ∈ superVtable supers,
    ∃ other ∈ klass.vtable, SameKey other method ∧ (other = method ∨ other ∈ klass.methods)

/-- A class and its superclasses. -/
def Sound (isInterface : Nat → Prop) : List Klass → Prop
  | [] => True
  | klass :: supers => Linked isInterface klass supers ∧ Sound isInterface supers

/-! ## Loading -/

/-- The interfaces that have been loaded. -/
structure LoadedInterfaces where
  interface : Nat → Interface
  isInterface : Nat → Prop
  holders : ∀ {id method}, method ∈ (interface id).methods →
    method.holder = id ∧ method.table = id
  notRenamed : ∀ {id method}, method ∈ (interface id).methods → method.isRenamed = false
  named : ∀ {id method}, method ∈ (interface id).methods → method.originalName ≠ unknown
  distinct : ∀ id, (interface id).methods.Pairwise fun method other => ¬ SameKey method other
  /-- The vtable has the methods of the interface and those of `java.lang.Object`. -/
  vtables : ∀ {id method}, method ∈ (interface id).vtable → method.holder = method.table

/-- What the parser has checked of a class. -/
structure ClassFile.Legal (loaded : LoadedInterfaces) (file : ClassFile) (supers : List Klass) :
    Prop where
  fresh : ∀ super ∈ supers, super.classId ≠ file.classId
  isClass : ¬ loaded.isInterface file.classId
  classNamed : file.name ≠ unknown
  holders : ∀ method ∈ file.methods, method.holder = file.classId ∧ method.table = file.classId
  notRenamed : ∀ method ∈ file.methods, method.isRenamed = false
  named : ∀ method ∈ file.methods, method.originalName ≠ unknown
  /-- `check_for_duplicate_methods`. -/
  distinct : file.methods.Pairwise fun method other => ¬ SameKey method other
  superInterfaces : ∀ interface ∈ file.superInterfaces, loaded.isInterface interface

/-- A class and its superclasses, loaded one after the other. -/
inductive Loaded (loaded : LoadedInterfaces) : List Klass → Prop
  | none : Loaded loaded []
  | load {file : ClassFile} {supers : List Klass}
      (before : Loaded loaded supers)
      (legal : file.Legal loaded supers) :
      Loaded loaded (loadClass loaded.interface file supers :: supers)

theorem matches_iff {method : Method} {name signature : String} :
    method.matches name signature = true ↔ method.name = name ∧ method.signature = signature := by
  unfold Method.matches
  exact decide_eq_true_iff

theorem name_of_not_renamed
    {method : Method}
    (notRenamed : method.isRenamed = false) :
    method.name = method.originalName := by
  unfold Method.name
  rw [notRenamed]
  rfl

section Mirandas

variable {loaded : LoadedInterfaces} {supers : List Klass} {methods : List Method} {classId : Nat}

theorem mem_mirandaMethods
    {earlier ids : List Nat}
    {method : Method}
    (member : method ∈ mirandaMethods loaded.interface classId supers methods earlier ids) :
    ∃ id ∈ ids, ∃ original ∈ (loaded.interface id).methods,
      method = newLazyErrorMethod classId original ∧
      (∀ other ∈ methods, other.isRenamed = false → ¬ SameKey other method) ∧
      ∀ interface ∈ earlier, ∀ other ∈ (loaded.interface interface).methods,
        ¬ SameKey other method := by
  induction ids generalizing earlier with
  | nil => cases member
  | cons id ids induction =>
      rcases List.mem_append.mp member with here | later
      · obtain ⟨original, inside, rfl⟩ := List.mem_map.mp here
        obtain ⟨inside, miranda⟩ := List.mem_filter.mp inside
        have originalName := name_of_not_renamed (loaded.notRenamed inside)
        unfold isMiranda at miranda
        simp only [Bool.and_eq_true, Bool.not_eq_true', List.any_eq_false, matches_iff] at miranda
        obtain ⟨⟨⟨⟨-, declared⟩, -⟩, -⟩, earlierFree⟩ := miranda
        refine ⟨id, List.mem_cons_self, original, inside, rfl, ?_, ?_⟩
        · rintro other member notRenamed ⟨sameName, sameSignature⟩
          refine declared other member ⟨?_, sameSignature⟩
          rw [name_of_not_renamed notRenamed, originalName, sameName]
          rfl
        · rintro interface before other member ⟨sameName, sameSignature⟩
          refine earlierFree interface before (List.any_eq_true.mpr
            ⟨other, member, matches_iff.2 ⟨?_, sameSignature⟩⟩)
          rw [name_of_not_renamed (loaded.notRenamed member), originalName, sameName]
          rfl
      · obtain ⟨other, inside, original, member, same, free, earlierFree⟩ := induction later
        refine ⟨other, List.mem_cons_of_mem _ inside, original, member, same, free, ?_⟩
        intro interface before
        exact earlierFree interface (List.mem_append_left _ before)

theorem mirandaMethods_distinct (earlier ids : List Nat) :
    (mirandaMethods loaded.interface classId supers methods earlier ids).Pairwise
      fun method other => ¬ SameKey method other := by
  induction ids generalizing earlier with
  | nil => exact List.Pairwise.nil
  | cons id ids induction =>
      unfold mirandaMethods
      rw [List.pairwise_append]
      refine ⟨?_, induction _, ?_⟩
      · rw [List.pairwise_map]
        exact ((loaded.distinct id).filter _).imp fun different same => different same
      · intro method here other later same
        obtain ⟨original, inside, rfl⟩ := List.mem_map.mp here
        obtain ⟨_, _, _, _, _, _, free⟩ := mem_mirandaMethods later
        exact free id (List.mem_append_right _ (List.mem_singleton_self id)) original
          (List.mem_filter.mp inside).1 same

end Mirandas

/-! ## The vtable -/

section Vtables

variable {interfaces : Nat → Interface} {supers : List Klass} {package : String}
  {classIsFinal : Bool}

theorem matches_of_overridesAt
    {method other : Method}
    {index : Nat}
    (entry : (superVtable supers)[index]? = some other)
    (overrides : overridesAt interfaces supers package method index = true) :
    other.matches method.name method.signature = true := by
  unfold overridesAt at overrides
  rw [entry] at overrides
  dsimp only at overrides
  rw [Bool.and_eq_true, Bool.and_eq_true] at overrides
  exact overrides.1.2

/-- A vtable that is made of the superclass's one and of methods. -/
structure Extends (supers : List Klass) (methods vtable : List Method) : Prop where
  entries : ∀ method ∈ vtable, method ∈ methods ∨ method ∈ superVtable supers
  inherited : ∀ (index : Nat) (entry : Method), (superVtable supers)[index]? = some entry →
    ∃ other, vtable[index]? = some other ∧
      (other = entry ∨ other ∈ methods ∧ entry.matches other.name other.signature = true)

theorem Extends.update
    {methods vtable : List Method}
    (extends' : Extends supers methods vtable)
    {method : Method}
    (member : method ∈ methods) :
    Extends supers methods
      (updateEntries interfaces supers package classIsFinal vtable method) := by
  have mapped : Extends supers methods (vtable.mapIdx fun index entry =>
      if overridesAt interfaces supers package method index then method else entry) := by
    constructor
    · intro other inside
      obtain ⟨index, below, same⟩ := List.mem_mapIdx.mp inside
      subst same
      split
      · exact .inl member
      · exact extends'.entries _ (List.getElem_mem below)
    · intro index entry found
      obtain ⟨other, at', kept⟩ := extends'.inherited index entry found
      rw [List.getElem?_mapIdx, at']
      by_cases overrides : overridesAt interfaces supers package method index = true
      · refine ⟨method, by simp [overrides], .inr ⟨member, ?_⟩⟩
        exact matches_of_overridesAt found overrides
      · exact ⟨other, by simp [overrides], kept⟩
  unfold updateEntries
  dsimp only
  split
  · constructor
    · intro other inside
      rcases List.mem_append.mp inside with old | new
      · exact mapped.entries other old
      · exact .inl (List.mem_singleton.mp new ▸ member)
    · intro index entry found
      obtain ⟨other, at', kept⟩ := mapped.inherited index entry found
      refine ⟨other, ?_, kept⟩
      rw [List.getElem?_append_left (List.getElem?_eq_some_iff.mp at').1, at']
  · exact mapped

theorem updateVtable_extends (methods : List Method) :
    Extends supers methods (updateVtable interfaces supers package classIsFinal methods) := by
  have start : Extends supers methods (superVtable supers) :=
    ⟨fun method inside => .inr inside, fun index entry found => ⟨entry, found, .inl rfl⟩⟩
  have all : ∀ (later : List Method) (vtable : List Method), (∀ method ∈ later, method ∈ methods) →
      Extends supers methods vtable →
        Extends supers methods
          (later.foldl (updateEntries interfaces supers package classIsFinal) vtable) := by
    intro later
    induction later with
    | nil =>
        intro vtable _ extends'
        exact extends'
    | cons method later induction =>
        intro vtable inside extends'
        exact induction _ (fun other member => inside other (List.mem_cons_of_mem _ member))
          (extends'.update (inside method List.mem_cons_self))
  exact all methods _ (fun method member => member) start

end Vtables

/-! ## Loaded classes are linked -/

section Classes

variable {loaded : LoadedInterfaces} {file : ClassFile} {supers : List Klass}

theorem mem_addMirandaMethods
    {method : Method}
    (member : method ∈ addMirandaMethods loaded.interface file supers) :
    method ∈ file.methods ∨ supers ≠ [] ∧
      method ∈ mirandaMethods loaded.interface file.classId supers file.methods []
        file.superInterfaces := by
  unfold addMirandaMethods at member
  split at member
  · rename_i adds
    rw [Bool.and_eq_true, Bool.not_eq_true', List.isEmpty_eq_false_iff] at adds
    exact (List.mem_append.mp member).imp_right fun miranda => ⟨adds.2, miranda⟩
  · exact .inl member

theorem addMirandaMethods_distinct (legal : file.Legal loaded supers) :
    (addMirandaMethods loaded.interface file supers).Pairwise
      fun method other => ¬ SameKey method other := by
  unfold addMirandaMethods
  split
  · rw [List.pairwise_append]
    refine ⟨legal.distinct, mirandaMethods_distinct _ _, ?_⟩
    intro method declared other miranda
    obtain ⟨_, _, _, _, _, free, _⟩ := mem_mirandaMethods miranda
    exact free method declared (legal.notRenamed method declared)
  · exact legal.distinct

theorem eq_of_sameKey
    {methods : List Method}
    (distinct : methods.Pairwise fun method other => ¬ SameKey method other)
    {method other : Method}
    (member : method ∈ methods)
    (member' : other ∈ methods)
    (same : SameKey method other) :
    method = other := by
  induction methods with
  | nil => cases member
  | cons first rest induction =>
      obtain ⟨different, distinct⟩ := List.pairwise_cons.mp distinct
      rcases List.mem_cons.mp member with rfl | inside
      · rcases List.mem_cons.mp member' with rfl | inside'
        · rfl
        · exact absurd same (different other inside')
      · rcases List.mem_cons.mp member' with rfl | inside'
        · exact absurd ⟨same.1.symm, same.2.symm⟩ (different method inside)
        · exact induction distinct inside inside'

/-- A method of a class before any is renamed. -/
theorem loaded_not_renamed
    (legal : file.Legal loaded supers)
    {method : Method}
    (member : method ∈ addMirandaMethods loaded.interface file supers) :
    method.isRenamed = false ∧ method.originalName ≠ unknown ∧ method.table = file.classId ∧
      (method.holder = file.classId ∨ loaded.isInterface method.holder ∧ supers ≠ []) := by
  rcases mem_addMirandaMethods member with declared | ⟨some, miranda⟩
  · exact ⟨legal.notRenamed _ declared, legal.named _ declared, (legal.holders _ declared).2,
      .inl (legal.holders _ declared).1⟩
  · obtain ⟨id, listed, original, inside, rfl, -⟩ := mem_mirandaMethods miranda
    have notRenamed : original.isRenamed = false := loaded.notRenamed inside
    have named : original.originalName ≠ unknown := loaded.named inside
    have holder : loaded.isInterface original.holder := by
      rw [(loaded.holders inside).1]
      exact legal.superInterfaces id listed
    exact ⟨notRenamed, named, rfl, .inr ⟨holder, some⟩⟩

end Classes

/-- No method of the tables and vtables of classes that were loaded is renamed. -/
def NotRenamed (klasses : List Klass) : Prop :=
  ∀ method ∈ superVtable klasses, method.isRenamed = false

theorem loaded_sound
    {loaded : LoadedInterfaces}
    {klasses : List Klass}
    (classes : Loaded loaded klasses) :
    Sound loaded.isInterface klasses ∧ NotRenamed klasses := by
  induction classes with
  | none => exact ⟨trivial, fun method member => absurd member List.not_mem_nil⟩
  | @load file supers before legal induction =>
      obtain ⟨sound, notRenamed⟩ := induction
      have extends' : Extends supers (addMirandaMethods loaded.interface file supers)
          (loadClass loaded.interface file supers).vtable := updateVtable_extends _
      refine ⟨⟨?_, sound⟩, ?_⟩
      · exact {
          fresh := legal.fresh
          isClass := legal.isClass
          classNamed := legal.classNamed
          tables := fun method member => (loaded_not_renamed legal member).2.2.1
          holders := fun method member => (loaded_not_renamed legal member).2.2.2
          keys := fun method member other member' same =>
            eq_of_sameKey (addMirandaMethods_distinct legal) member member' same
          named := fun method member => (loaded_not_renamed legal member).2.1
          entries := extends'.entries
          inherited := fun method member => by
            obtain ⟨index, found⟩ := List.mem_iff_getElem?.mp member
            obtain ⟨other, at', kept⟩ := extends'.inherited index method found
            refine ⟨other, List.mem_of_getElem? at', ?_⟩
            rcases kept with rfl | ⟨declared, matches'⟩
            · exact ⟨⟨rfl, rfl⟩, .inl rfl⟩
            · obtain ⟨sameName, sameSignature⟩ := matches_iff.1 matches'
              rw [name_of_not_renamed (notRenamed method member),
                name_of_not_renamed (loaded_not_renamed legal declared).1] at sameName
              exact ⟨⟨sameName.symm, sameSignature.symm⟩, .inr declared⟩ }
      · intro method member
        rcases extends'.entries method member with declared | inherited
        · exact (loaded_not_renamed legal declared).1
        · exact notRenamed method inherited

/-! ## Renaming -/

section Renamed

variable {isInterface : Nat → Prop} (methods : Method → Bool) (classes : Nat → Bool)

theorem superVtable_rename (klasses : List Klass) :
    superVtable (klasses.map (Klass.rename methods classes)) =
      (superVtable klasses).map (Method.rename methods) := by
  cases klasses with
  | nil => rfl
  | cons klass supers => rfl

theorem linked_rename
    {klass : Klass}
    {supers : List Klass}
    (linked : Linked isInterface klass supers) :
    Linked isInterface (klass.rename methods classes)
      (supers.map (Klass.rename methods classes)) := by
  have original : ∀ method ∈ (klass.rename methods classes).methods,
      ∃ before ∈ klass.methods, method = before.rename methods := by
    intro method member
    obtain ⟨before, inside, rfl⟩ := List.mem_map.mp member
    exact ⟨before, inside, rfl⟩
  constructor
  · intro super member
    obtain ⟨before, inside, rfl⟩ := List.mem_map.mp member
    exact linked.fresh before inside
  · exact linked.isClass
  · exact linked.classNamed
  · intro method member
    obtain ⟨before, inside, rfl⟩ := original method member
    exact linked.tables before inside
  · intro method member
    obtain ⟨before, inside, rfl⟩ := original method member
    exact (linked.holders before inside).imp_right fun ⟨interface, notRoot⟩ =>
      ⟨interface, fun root => notRoot (List.map_eq_nil_iff.mp root)⟩
  · intro method member other member' same
    obtain ⟨before, inside, rfl⟩ := original method member
    obtain ⟨before', inside', rfl⟩ := original other member'
    rw [linked.keys before inside before' inside' same]
  · intro method member
    obtain ⟨before, inside, rfl⟩ := original method member
    exact linked.named before inside
  · intro method member
    rw [superVtable_rename]
    obtain ⟨before, inside, rfl⟩ := List.mem_map.mp member
    exact (linked.entries before inside).imp List.mem_map_of_mem List.mem_map_of_mem
  · intro method member
    rw [superVtable_rename] at member
    obtain ⟨before, inside, rfl⟩ := List.mem_map.mp member
    obtain ⟨other, there, same, kept⟩ := linked.inherited before inside
    refine ⟨other.rename methods, List.mem_map_of_mem there, same, ?_⟩
    exact kept.imp (congrArg _) List.mem_map_of_mem

theorem sound_rename
    {klasses : List Klass}
    (sound : Sound isInterface klasses) :
    Sound isInterface (klasses.map (Klass.rename methods classes)) := by
  induction klasses with
  | nil => exact trivial
  | cons klass supers induction =>
      exact ⟨linked_rename methods classes sound.1, induction sound.2⟩

end Renamed

end PicoJvm.Compaction
