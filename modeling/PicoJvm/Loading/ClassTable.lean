import PicoJvm.Loading.SystemDictionary

/-!
# The class table grows

Looking types up makes fake classes and array classes but changes none: ids keep
denoting what they denoted, and every id denotes a type.
-/

namespace PicoJvm.Loading

open PicoJvm.Lib.Attempt

/-! ## Types -/

/-- The types of fields and parameters. -/
inductive JavaType
  | base (symbol : UInt8)
  | object (name : Name)
  | array (component : JavaType)
  deriving DecidableEq, Repr

namespace JavaType

/-- The arrays of some dimensions of a type. -/
def arrays : Nat → JavaType → JavaType
  | 0, type => type
  | dimensions + 1, type => .array (arrays dimensions type)

def dimensions : JavaType → Nat
  | .base _ => 0
  | .object _ => 0
  | .array component => component.dimensions + 1

end JavaType

namespace Universe

/-- The type a class object stands for. -/
inductive Denotes (state : Universe) : Nat → JavaType → Prop
  | object {object : Nat} {fake : Bool} {name : Name}
      (kind : (state.klass object).kind = .instanceClass fake)
      (named : (state.klass object).name = some name) :
      Denotes state object (.object name)
  | base {object : Nat} {symbol : UInt8}
      (kind : (state.klass object).kind = .typeArrayClass symbol) :
      Denotes state object (.array (.base symbol))
  | array {object element : Nat} {type : JavaType}
      (kind : (state.klass object).kind = .objArrayClass element)
      (denotes : Denotes state element type) :
      Denotes state object (.array type)

theorem Denotes.unique
    {state : Universe} {object : Nat} {type type' : JavaType}
    (denotes : Denotes state object type)
    (denotes' : Denotes state object type') :
    type = type' := by
  induction denotes generalizing type' with
  | object kind named =>
      cases denotes' with
      | object kind' named' =>
          rw [named] at named'
          injection named' with same
          rw [same]
      | base kind' => rw [kind] at kind'; cases kind'
      | array kind' _ => rw [kind] at kind'; cases kind'
  | base kind =>
      cases denotes' with
      | object kind' _ => rw [kind] at kind'; cases kind'
      | base kind' =>
          rw [kind] at kind'
          injection kind' with same
          rw [same]
      | array kind' _ => rw [kind] at kind'; cases kind'
  | array kind _ inductionHypothesis =>
      cases denotes' with
      | object kind' _ => rw [kind] at kind'; cases kind'
      | base kind' => rw [kind] at kind'; cases kind'
      | array kind' denotes' =>
          rw [kind] at kind'
          injection kind' with same
          subst same
          rw [inductionHypothesis denotes']

/-! ## Well-formed tables -/

/-- The class list has the object under its own id. -/
def Registered (state : Universe) (object : Nat) : Prop :=
  object < state.objects.length ∧
    (state.klass object).classId < state.classList.length ∧
      state.classFromId (state.klass object).classId = object

namespace Registered

variable {state : Universe} {object : Nat}

theorem allocated (registered : Registered state object) : object < state.objects.length :=
  registered.1

theorem id_lt (registered : Registered state object) :
    (state.klass object).classId < state.classList.length :=
  registered.2.1

theorem listed (registered : Registered state object) :
    state.classFromId (state.klass object).classId = object :=
  registered.2.2

end Registered

/-- A registered instance class, as the dictionary holds them. -/
def Linked (state : Universe) (object : Nat) : Prop :=
  Registered state object ∧ (state.klass object).isInstanceClass = true

structure WellFormed (state : Universe) : Prop where
  bounded : state.classList.length ≤ maxClasses
  listed : ∀ classId < state.classList.length,
    Registered state (state.classFromId classId) ∧
      (state.klass (state.classFromId classId)).classId = classId
  typeArrays : ∀ chr, isSimpleTypeSymbol chr = true →
    Registered state (state.typeArrayClasses.getD (simpleTypeSymbolTable chr - 1) 0) ∧
      (state.klass (state.typeArrayClasses.getD (simpleTypeSymbolTable chr - 1) 0)).kind =
        .typeArrayClass chr
  arrays : ∀ object array, Registered state object →
    (state.klass object).arrayClass = some array →
      Registered state array ∧ (state.klass array).kind = .objArrayClass object
  elements : ∀ object element, Registered state object →
    (state.klass object).kind = .objArrayClass element → Registered state element
  heads : ∀ object, some object ∈ state.dictionary → Linked state object
  nexts : ∀ object next, Linked state object → (state.klass object).next = some next →
    Linked state next
  nears : ∀ name, state.nears.lookup name = some .fieldType →
    name.length = 1 ∨ ∃ classId < state.classList.length, name = encodeUshort classId

/-- Classes are only added, and none changes its sort, its id, or a name or an array class
it has. -/
structure Extends (before after : Universe) : Prop where
  objects_le : before.objects.length ≤ after.objects.length
  classList_prefix : before.classList <+: after.classList
  typeArrays : after.typeArrayClasses = before.typeArrayClasses
  kept : ∀ object < before.objects.length,
    (after.klass object).kind = (before.klass object).kind ∧
      (after.klass object).classId = (before.klass object).classId ∧
        (∀ name, (before.klass object).name = some name →
          (after.klass object).name = some name)

namespace Extends

theorem refl (state : Universe) : Extends state state :=
  ⟨Nat.le_refl _, List.prefix_rfl, rfl, fun _ _ => ⟨rfl, rfl, fun _ named => named⟩⟩

theorem trans
    {first second third : Universe}
    (earlier : Extends first second)
    (later : Extends second third) :
    Extends first third where
  objects_le := earlier.objects_le.trans later.objects_le
  classList_prefix := earlier.classList_prefix.trans later.classList_prefix
  typeArrays := later.typeArrays.trans earlier.typeArrays
  kept object inside := by
    obtain ⟨kind, classId, named⟩ := earlier.kept object inside
    obtain ⟨kind', classId', named'⟩ :=
      later.kept object (inside.trans_le earlier.objects_le)
    exact ⟨kind'.trans kind, classId'.trans classId, fun name held => named' name (named name held)⟩

theorem classFromId_eq
    {before after : Universe}
    (extends' : Extends before after)
    {classId : Nat}
    (inside : classId < before.classList.length) :
    after.classFromId classId = before.classFromId classId := by
  obtain ⟨suffix, appended⟩ := extends'.classList_prefix
  unfold Universe.classFromId
  rw [← appended]
  simp [List.getD_eq_getElem?_getD, List.getElem?_append_left inside]

theorem registered
    {before after : Universe}
    (extends' : Extends before after)
    {object : Nat}
    (registered : Registered before object) :
    Registered after object := by
  obtain ⟨_, classId, _⟩ := extends'.kept object registered.allocated
  refine ⟨registered.allocated.trans_le extends'.objects_le, ?_, ?_⟩
  · rw [classId]
    exact registered.id_lt.trans_le extends'.classList_prefix.length_le
  · rw [classId, extends'.classFromId_eq registered.id_lt]
    exact registered.listed

theorem denotes
    {before after : Universe}
    (extends' : Extends before after)
    (wellFormed : WellFormed before)
    {object : Nat} {type : JavaType}
    (registered : Registered before object)
    (denotes : Denotes before object type) :
    Denotes after object type := by
  induction denotes with
  | object kind named =>
      obtain ⟨kind', _, named'⟩ := extends'.kept _ registered.allocated
      exact .object (kind'.trans kind) (named' _ named)
  | base kind =>
      exact .base ((extends'.kept _ registered.allocated).1.trans kind)
  | array kind _ inductionHypothesis =>
      exact .array ((extends'.kept _ registered.allocated).1.trans kind)
        (inductionHypothesis (wellFormed.elements _ _ registered kind))

theorem linked
    {before after : Universe}
    (extends' : Extends before after)
    {object : Nat}
    (linked : Linked before object) :
    Linked after object := by
  refine ⟨extends'.registered linked.1, ?_⟩
  have isInstance := linked.2
  unfold JavaClass.isInstanceClass at isInstance ⊢
  rwa [(extends'.kept object linked.1.allocated).1]

end Extends

/-! ## Stores to class objects -/

section Stores

variable {state : Universe} {object : Nat} {change : JavaClass → JavaClass}

theorem klass_update (other : Nat) :
    (state.update object change).klass other =
      if other = object ∧ object < state.objects.length then change (state.klass object)
      else state.klass other := by
  unfold klass update
  simp only [List.getD_eq_getElem?_getD, List.getElem?_modify]
  by_cases same : object = other
  · subst same
    by_cases inside : object < state.objects.length
    · simp [inside]
    · simp [inside]
  · simp [same, Ne.symm same]

@[simp] theorem objects_length_update :
    (state.update object change).objects.length = state.objects.length := by
  simp [update]

@[simp] theorem classFromId_update (classId : Nat) :
    (state.update object change).classFromId classId = state.classFromId classId :=
  rfl

/-- A field that the store leaves alone is the same in all classes. -/
theorem field_update
    {field : Type} (read : JavaClass → field)
    (same : read (change (state.klass object)) = read (state.klass object))
    (other : Nat) :
    read ((state.update object change).klass other) = read (state.klass other) := by
  rw [klass_update]
  split
  · rename_i both
    rw [both.1, same]
  · rfl

theorem registered_update
    (same : (change (state.klass object)).classId = (state.klass object).classId)
    {other : Nat} :
    Registered (state.update object change) other ↔ Registered state other := by
  unfold Registered
  rw [field_update JavaClass.classId same, objects_length_update, classFromId_update]
  rfl

theorem linked_update
    (sameKind : (change (state.klass object)).kind = (state.klass object).kind)
    (sameId : (change (state.klass object)).classId = (state.klass object).classId)
    {other : Nat} :
    Linked (state.update object change) other ↔ Linked state other := by
  unfold Linked
  rw [registered_update sameId,
    field_update JavaClass.isInstanceClass (by unfold JavaClass.isInstanceClass; rw [sameKind])]

end Stores

/-! ## Operations that only add classes -/

/-- A well-formed table that extends another by a bounded number of classes. -/
structure Grown (count : Nat) (before after : Universe) : Prop where
  wellFormed : WellFormed after
  extends' : Extends before after
  length_le : after.classList.length ≤ before.classList.length + count

theorem Grown.refl
    {state : Universe}
    (wellFormed : WellFormed state) :
    Grown 0 state state :=
  ⟨wellFormed, .refl state, Nat.le_refl _⟩

theorem Grown.trans
    {first second third : Universe} {count count' : Nat}
    (earlier : Grown count first second)
    (later : Grown count' second third) :
    Grown (count + count') first third :=
  ⟨later.wellFormed, earlier.extends'.trans later.extends', by
    have := earlier.length_le
    have := later.length_le
    omega⟩

theorem Grown.mono
    {before after : Universe} {count count' : Nat}
    (grown : Grown count before after)
    (atMost : count ≤ count') :
    Grown count' before after :=
  ⟨grown.wellFormed, grown.extends', grown.length_le.trans (by omega)⟩

/-- However it ends, the operation adds at most `count` classes; a value it returns is as
`result` says, and it throws no other faults than `faults`. -/
def Adds {value : Type} (count : Nat) (operation : Operation value) (before : Universe)
    (result : value → Universe → Prop) (faults : Failure → Prop) : Prop :=
  Ensures operation before
    (fun returned after => Grown count before after ∧ result returned after)
    (fun fault after => Grown count before after ∧ faults fault)

end Universe

end PicoJvm.Loading
