import Mathlib.Data.List.Basic
import Mathlib.Logic.Function.Basic

/-!
# Subtypes of classes and of arrays

The subtype check of loaded classes, with the two answers each class keeps of earlier checks. The
hierarchy is given by what loading a class has laid down: its superclasses and the interfaces in its
table.
-/

namespace PicoJvm.Arrays

inductive BasicType
  | boolean | char | float | double | byte | short | int | long
  deriving DecidableEq, Repr

/-- The bytes of an element. -/
def BasicType.scale : BasicType → Nat
  | .boolean => 1
  | .char => 2
  | .float => 4
  | .double => 8
  | .byte => 1
  | .short => 2
  | .int => 4
  | .long => 8

/-- `JavaClass`: an instance class or interface by its id, or a class of arrays. -/
inductive Klass
  | instanceClass (id : Nat)
  | typeArray (type : BasicType)
  | objArray (element : Klass)
  deriving DecidableEq, Repr

/-- The classes that are loaded. -/
structure Hierarchy where
  objectClass : Nat
  isInterface : Nat → Bool
  /-- The class and its superclasses. -/
  supers : Nat → List Nat
  /-- The interfaces of the itable. -/
  itable : Nat → List Nat
  supers_self : ∀ id, id ∈ supers id
  supers_closed : ∀ {id super above}, super ∈ supers id → above ∈ supers super → above ∈ supers id
  itable_supers : ∀ {id super interface},
    super ∈ supers id → interface ∈ itable super → interface ∈ itable id
  itable_closed : ∀ {id interface above},
    interface ∈ itable id → above ∈ itable interface → above ∈ itable id
  /-- Above an interface there is only `java.lang.Object`. -/
  interface_supers : ∀ {id interface above},
    isInterface interface = true → above ∈ supers interface → isInterface above = false →
      above ∈ supers id
  object_supers : supers objectClass = [objectClass]
  object_itable : itable objectClass = []
  object_not_interface : isInterface objectClass = false

/-- `subtype_cache_1` and `subtype_cache_2` of each class. -/
structure Caches where
  first : Klass → Option Klass
  second : Klass → Option Klass

namespace Caches

/-- An earlier check of the pair is remembered. -/
def Remembers (caches : Caches) (self other : Klass) : Prop :=
  caches.first self = some other ∨ caches.second self = some other

instance (caches : Caches) (self other : Klass) : Decidable (caches.Remembers self other) :=
  inferInstanceAs (Decidable (_ ∨ _))

/-- The older of the two is given up. -/
def remember (caches : Caches) (self other : Klass) : Caches where
  first := Function.update caches.first self (some other)
  second := Function.update caches.second self (caches.first self)

/-- `is_subtype_of` around `compute_and_set_is_subtype_of`. -/
def check (caches : Caches) (self other : Klass) (computed : Bool × Caches) : Bool × Caches :=
  if caches.Remembers self other then
    (true, caches)
  else if computed.1 then
    (true, computed.2.remember self other)
  else
    computed

end Caches

variable (hierarchy : Hierarchy)

/-- `InstanceClass::compute_is_subtype_of`. -/
def instanceIsSubtypeOf (id other : Nat) : Bool :=
  if hierarchy.isInterface other then
    decide (id = other) || decide (other ∈ hierarchy.itable id)
  else
    decide (other ∈ hierarchy.supers id)

/-- `is_subtype_of`. -/
def isSubtypeOf : Klass → Klass → Caches → Bool × Caches
  | .instanceClass id, other, caches =>
      caches.check (.instanceClass id) other <|
        match other with
        | .instanceClass other => (decide (id = other) || instanceIsSubtypeOf hierarchy id other, caches)
        | .typeArray _ => (false, caches)
        | .objArray _ => (false, caches)
  | .typeArray type, other, caches =>
      caches.check (.typeArray type) other <|
        match other with
        | .instanceClass other => (decide (other = hierarchy.objectClass), caches)
        | .typeArray other => (decide (type = other), caches)
        | .objArray _ => (false, caches)
  | .objArray element, other, caches =>
      caches.check (.objArray element) other <|
        match other with
        | .instanceClass other => (decide (other = hierarchy.objectClass), caches)
        | .typeArray _ => (false, caches)
        | .objArray other =>
            if element = other then (true, caches) else isSubtypeOf element other caches

/-! ## Without what is remembered -/

/-- The answer of `compute_is_subtype_of`. -/
def IsSubtype : Klass → Klass → Prop
  | .instanceClass id, .instanceClass other => id = other ∨ instanceIsSubtypeOf hierarchy id other = true
  | .instanceClass _, _ => False
  | .typeArray type, .typeArray other => type = other
  | .typeArray _, .instanceClass other => other = hierarchy.objectClass
  | .typeArray _, .objArray _ => False
  | .objArray element, .objArray other => element = other ∨ IsSubtype element other
  | .objArray _, .instanceClass other => other = hierarchy.objectClass
  | .objArray _, .typeArray _ => False

variable {hierarchy}

theorem IsSubtype.refl
    (klass : Klass) :
    IsSubtype hierarchy klass klass := by
  cases klass with
  | instanceClass id => exact Or.inl rfl
  | typeArray type => exact rfl
  | objArray element => exact Or.inl rfl

/-- Everything is an object. -/
theorem isSubtype_object_trans
    {klass : Klass}
    {other : Nat}
    (isObject : IsSubtype hierarchy klass (.instanceClass hierarchy.objectClass))
    (above : IsSubtype hierarchy (.instanceClass hierarchy.objectClass) (.instanceClass other)) :
    IsSubtype hierarchy klass (.instanceClass other) := by
  have same : hierarchy.objectClass = other := by
    obtain isSame | computed := above
    · exact isSame
    · rw [instanceIsSubtypeOf, hierarchy.object_supers, hierarchy.object_itable] at computed
      split at computed
      · simpa using computed
      · simpa [eq_comm] using computed
  rw [← same]
  exact isObject

theorem instanceIsSubtypeOf_trans
    {id middle other : Nat}
    (below : instanceIsSubtypeOf hierarchy id middle = true)
    (above : instanceIsSubtypeOf hierarchy middle other = true) :
    instanceIsSubtypeOf hierarchy id other = true := by
  unfold instanceIsSubtypeOf at *
  by_cases isMiddle : hierarchy.isInterface middle = true
  · rw [if_pos isMiddle, Bool.or_eq_true, decide_eq_true_iff, decide_eq_true_iff] at below
    obtain isSame | inTable := below
    · rw [isSame]
      exact above
    · by_cases isOther : hierarchy.isInterface other = true
      · rw [if_pos isOther, Bool.or_eq_true, decide_eq_true_iff, decide_eq_true_iff] at above ⊢
        obtain isSame | above := above
        · rw [← isSame]
          exact Or.inr inTable
        · exact Or.inr (hierarchy.itable_closed inTable above)
      · rw [if_neg isOther, decide_eq_true_iff] at above ⊢
        exact hierarchy.interface_supers isMiddle above (Bool.eq_false_iff.mpr isOther)
  · rw [if_neg isMiddle, decide_eq_true_iff] at below
    by_cases isOther : hierarchy.isInterface other = true
    · rw [if_pos isOther, Bool.or_eq_true, decide_eq_true_iff, decide_eq_true_iff] at above ⊢
      obtain isSame | above := above
      · rw [isSame] at isMiddle
        exact absurd isOther isMiddle
      · exact Or.inr (hierarchy.itable_supers below above)
    · rw [if_neg isOther, decide_eq_true_iff] at above ⊢
      exact hierarchy.supers_closed below above

theorem IsSubtype.trans
    {klass middle other : Klass}
    (below : IsSubtype hierarchy klass middle)
    (above : IsSubtype hierarchy middle other) :
    IsSubtype hierarchy klass other := by
  induction klass generalizing middle other with
  | instanceClass id =>
      cases middle with
      | instanceClass middle =>
          cases other with
          | instanceClass other =>
              obtain isSame | below := below
              · rw [isSame]
                exact above
              · obtain isSame | above := above
                · rw [← isSame]
                  exact Or.inr below
                · exact Or.inr (instanceIsSubtypeOf_trans below above)
          | typeArray type => exact above.elim
          | objArray element => exact above.elim
      | typeArray type => exact below.elim
      | objArray element => exact below.elim
  | typeArray type =>
      cases middle with
      | instanceClass middle =>
          have isObject : middle = hierarchy.objectClass := below
          rw [isObject] at below above
          cases other with
          | instanceClass other => exact isSubtype_object_trans below above
          | typeArray type => exact above.elim
          | objArray element => exact above.elim
      | typeArray middle =>
          have isSame : type = middle := below
          rw [isSame]
          exact above
      | objArray element => exact below.elim
  | objArray element inductionHypothesis =>
      cases middle with
      | instanceClass middle =>
          have isObject : middle = hierarchy.objectClass := below
          rw [isObject] at below above
          cases other with
          | instanceClass other => exact isSubtype_object_trans below above
          | typeArray type => exact above.elim
          | objArray element => exact above.elim
      | typeArray type => exact below.elim
      | objArray middle =>
          cases other with
          | instanceClass other => exact above
          | typeArray type => exact above.elim
          | objArray other =>
              obtain isSame | below := below
              · rw [isSame]
                exact above
              · obtain isSame | above := above
                · rw [← isSame]
                  exact Or.inr below
                · exact Or.inr (inductionHypothesis below above)

/-! ## What is remembered is right -/

/-- Only subtypes are remembered. -/
def Caches.Valid (hierarchy : Hierarchy) (caches : Caches) : Prop :=
  ∀ self other, caches.Remembers self other → IsSubtype hierarchy self other

theorem Caches.Valid.remember
    {caches : Caches}
    (valid : caches.Valid hierarchy)
    {self other : Klass}
    (isSubtype : IsSubtype hierarchy self other) :
    (caches.remember self other).Valid hierarchy := by
  intro klass above remembers
  by_cases isSelf : klass = self
  · rw [isSelf] at remembers ⊢
    rw [Remembers, Caches.remember] at remembers
    dsimp only at remembers
    rw [Function.update_self, Function.update_self] at remembers
    obtain isNew | isOld := remembers
    · rw [← Option.some.inj isNew]
      exact isSubtype
    · exact valid self above (Or.inl isOld)
  · rw [Remembers, Caches.remember] at remembers
    dsimp only at remembers
    rw [Function.update_of_ne isSelf, Function.update_of_ne isSelf] at remembers
    exact valid klass above remembers

theorem Caches.Valid.check
    {caches : Caches}
    (valid : caches.Valid hierarchy)
    {self other : Klass}
    {computed : Bool × Caches}
    (right : computed.1 = true ↔ IsSubtype hierarchy self other)
    (stillValid : computed.2.Valid hierarchy) :
    ((caches.check self other computed).1 = true ↔ IsSubtype hierarchy self other) ∧
      (caches.check self other computed).2.Valid hierarchy := by
  rw [Caches.check]
  split
  · next remembers =>
      exact ⟨iff_of_true rfl (valid self other remembers), valid⟩
  · split
    · next isSubtype =>
        have isSubtype := right.mp isSubtype
        exact ⟨iff_of_true rfl isSubtype, stillValid.remember isSubtype⟩
    · exact ⟨right, stillValid⟩

/-- The check answers as if nothing had been remembered. -/
theorem isSubtypeOf_spec
    {caches : Caches}
    (valid : caches.Valid hierarchy)
    (self other : Klass) :
    ((isSubtypeOf hierarchy self other caches).1 = true ↔ IsSubtype hierarchy self other) ∧
      (isSubtypeOf hierarchy self other caches).2.Valid hierarchy := by
  induction self generalizing other with
  | instanceClass id =>
      rw [isSubtypeOf.eq_def]
      apply valid.check
      · cases other with
        | instanceClass other => simp [IsSubtype]
        | typeArray type => simp [IsSubtype]
        | objArray element => simp [IsSubtype]
      · cases other with
        | instanceClass other => exact valid
        | typeArray type => exact valid
        | objArray element => exact valid
  | typeArray type =>
      rw [isSubtypeOf.eq_def]
      apply valid.check
      · cases other with
        | instanceClass other => simp [IsSubtype]
        | typeArray type => simp [IsSubtype]
        | objArray element => simp [IsSubtype]
      · cases other with
        | instanceClass other => exact valid
        | typeArray type => exact valid
        | objArray element => exact valid
  | objArray element inductionHypothesis =>
      rw [isSubtypeOf.eq_def]
      apply valid.check
      · cases other with
        | instanceClass other => simp [IsSubtype]
        | typeArray type => simp [IsSubtype]
        | objArray other =>
            by_cases isSame : element = other
            · simp [IsSubtype, isSame]
            · simp [IsSubtype, isSame, (inductionHypothesis other).1]
      · cases other with
        | instanceClass other => exact valid
        | typeArray type => exact valid
        | objArray other =>
            dsimp only
            split
            · exact valid
            · exact (inductionHypothesis other).2

end PicoJvm.Arrays
