import PicoJvm.Loading.ClassTable

/-!
# What looking types up leaves behind

Every operation that looks a type up only adds classes, whether it returns or runs out
of memory on the way.
-/

namespace PicoJvm.Loading

open PicoJvm.Lib.Attempt

namespace Universe

/-! ## Rules -/

namespace Adds

variable {value value' : Type} {count count' : Nat} {operation : Operation value}
  {before : Universe} {result : value → Universe → Prop} {faults : Failure → Prop}

theorem pure
    {returned : value}
    (wellFormed : WellFormed before)
    (holds : result returned before) :
    Adds 0 (Pure.pure returned) before result faults :=
  Ensures.pure ⟨.refl wellFormed, holds⟩

theorem throw
    {fault : Failure}
    (wellFormed : WellFormed before)
    (holds : faults fault) :
    Adds 0 (MonadExcept.throw fault : Operation value) before result faults :=
  Ensures.throw ⟨.refl wellFormed, holds⟩

theorem mono
    {result' : value → Universe → Prop} {faults' : Failure → Prop}
    (adds : Adds count operation before result faults)
    (atMost : count ≤ count')
    (resultMono : ∀ returned after, Grown count before after → result returned after →
      result' returned after)
    (faultsMono : ∀ fault, faults fault → faults' fault) :
    Adds count' operation before result' faults' := by
  refine Ensures.mono adds ?_ ?_
  · rintro returned after ⟨grown, holds⟩
    exact ⟨grown.mono atMost, resultMono returned after grown holds⟩
  · rintro fault after ⟨grown, holds⟩
    exact ⟨grown.mono atMost, faultsMono fault holds⟩

theorem bind
    {next : value → Operation value'} {middle : value → Universe → Prop}
    {result : value' → Universe → Prop}
    (adds : Adds count operation before middle faults)
    (addsNext : ∀ returned between, Grown count before between → middle returned between →
      Adds count' (next returned) between result faults) :
    Adds (count + count') (operation >>= next) before result faults := by
  refine Ensures.bind (Ensures.mono adds ?_ ?_)
  · rintro returned between ⟨grown, holds⟩
    refine Ensures.mono (addsNext returned between grown holds) ?_ ?_
    · rintro returned' after ⟨grown', holds'⟩
      exact ⟨grown.trans grown', holds'⟩
    · rintro fault after ⟨grown', holds'⟩
      exact ⟨grown.trans grown', holds'⟩
  · rintro fault after ⟨grown, holds⟩
    exact ⟨grown.mono (Nat.le_add_right _ _), holds⟩

theorem get
    {next : Universe → Operation value}
    (adds : Adds count (next before) before result faults) :
    Adds count (MonadState.get >>= next) before result faults :=
  Ensures.bind (Ensures.get adds)

theorem modify
    {change : Universe → Universe}
    (grown : Grown count before (change before)) :
    Adds count (modify change : Operation PUnit) before
      (fun _ after => after = change before) faults :=
  Ensures.modify ⟨grown, rfl⟩

theorem set
    {after : Universe}
    (grown : Grown count before after) :
    Adds count (MonadStateOf.set after : Operation PUnit) before
      (fun _ after' => after' = after) faults :=
  Ensures.set ⟨grown, rfl⟩

end Adds

/-! ## Changes of the table -/

section Changes

variable {state : Universe} (wellFormed : WellFormed state)
include wellFormed

theorem WellFormed.withRoom (room : Nat) : WellFormed { state with room } :=
  ⟨wellFormed.bounded, wellFormed.listed, wellFormed.typeArrays, wellFormed.arrays,
    wellFormed.elements, wellFormed.heads, wellFormed.nexts, wellFormed.nears⟩

theorem grown_withRoom (room : Nat) : Grown 0 state { state with room } :=
  ⟨wellFormed.withRoom room,
    ⟨Nat.le_refl _, List.prefix_rfl, rfl, fun _ _ => ⟨rfl, rfl, fun _ named => named⟩⟩,
    Nat.le_refl _⟩

/-- A symbol is marked as a type. -/
theorem grown_setNear
    {name : Name} {near : Near}
    (encoded : near = .fieldType →
      name.length = 1 ∨ ∃ classId < state.classList.length, name = encodeUshort classId) :
    Grown 0 state (state.setNear name near) where
  wellFormed :=
    ⟨wellFormed.bounded, wellFormed.listed, wellFormed.typeArrays, wellFormed.arrays,
      wellFormed.elements, wellFormed.heads, wellFormed.nexts, by
        intro other marked
        unfold setNear at marked
        simp only [List.lookup_cons] at marked
        split at marked
        · rename_i same
          rw [LawfulBEq.eq_of_beq same]
          exact encoded (Option.some.inj marked)
        · exact wellFormed.nears other marked⟩
  extends' := ⟨Nat.le_refl _, List.prefix_rfl, rfl, fun _ _ => ⟨rfl, rfl, fun _ named => named⟩⟩
  length_le := Nat.le_refl _

/-- A store to a class object that leaves its sort and id, and links it only to what
belongs there. -/
theorem grown_update
    {object : Nat} {change : JavaClass → JavaClass}
    (sameKind : (change (state.klass object)).kind = (state.klass object).kind)
    (sameId : (change (state.klass object)).classId = (state.klass object).classId)
    (keepsName : ∀ name, (state.klass object).name = some name →
      (change (state.klass object)).name = some name)
    (array : ∀ array, Registered state object →
      (change (state.klass object)).arrayClass = some array →
        Registered state array ∧ (state.klass array).kind = .objArrayClass object)
    (next : ∀ next, Linked state object →
      (change (state.klass object)).next = some next → Linked state next) :
    Grown 0 state (state.update object change) where
  wellFormed :=
    { bounded := wellFormed.bounded
      listed := by
        intro classId inside
        obtain ⟨registered, listed⟩ := wellFormed.listed classId inside
        refine ⟨(registered_update sameId).mpr registered, ?_⟩
        rw [field_update JavaClass.classId sameId]
        exact listed
      typeArrays := by
        intro chr simple
        obtain ⟨registered, kind⟩ := wellFormed.typeArrays chr simple
        refine ⟨(registered_update sameId).mpr registered, ?_⟩
        rw [field_update JavaClass.kind sameKind]
        exact kind
      arrays := by
        intro other array' registered held
        rw [registered_update sameId] at registered
        rw [registered_update sameId, field_update JavaClass.kind sameKind]
        rw [klass_update] at held
        split at held
        · rename_i both
          rw [both.1] at registered ⊢
          exact array array' registered held
        · exact wellFormed.arrays other array' registered held
      elements := by
        intro other element registered kind
        rw [registered_update sameId] at registered ⊢
        rw [field_update JavaClass.kind sameKind] at kind
        exact wellFormed.elements other element registered kind
      heads := by
        intro head member
        rw [linked_update sameKind sameId]
        exact wellFormed.heads head member
      nexts := by
        intro other next' linked held
        rw [linked_update sameKind sameId] at linked ⊢
        rw [klass_update] at held
        split at held
        · rename_i both
          rw [both.1] at linked
          exact next next' linked held
        · exact wellFormed.nexts other next' linked held
      nears := wellFormed.nears }
  extends' :=
    { objects_le := objects_length_update.ge
      classList_prefix := List.prefix_rfl
      typeArrays := rfl
      kept := by
        intro other _
        refine ⟨field_update JavaClass.kind sameKind other,
          field_update JavaClass.classId sameId other, ?_⟩
        intro name named
        rw [klass_update]
        split
        · rename_i both
          rw [both.1] at named
          exact keepsName name named
        · exact named }
  length_le := Nat.le_refl _

/-- The table behind `register_java_class`. -/
def register (state : Universe) (klass : JavaClass) : Universe :=
  { state with
    objects := state.objects ++ [{ klass with classId := state.classList.length }]
    classList := state.classList ++ [state.objects.length] }

omit wellFormed in
theorem klass_register_new (klass : JavaClass) :
    (state.register klass).klass state.objects.length =
      { klass with classId := state.classList.length } := by
  simp [Universe.klass, register]

omit wellFormed in
theorem klass_register_of_lt
    (klass : JavaClass) {object : Nat}
    (allocated : object < state.objects.length) :
    (state.register klass).klass object = state.klass object := by
  simp [Universe.klass, register, List.getD_eq_getElem?_getD, List.getElem?_append_left allocated]

omit wellFormed in
theorem extends_register (klass : JavaClass) : Extends state (state.register klass) where
  objects_le := by simp [register]
  classList_prefix := ⟨[state.objects.length], rfl⟩
  typeArrays := rfl
  kept object allocated := by
    rw [klass_register_of_lt klass allocated]
    exact ⟨rfl, rfl, fun _ named => named⟩

omit wellFormed in
theorem registered_register_new (klass : JavaClass) :
    Registered (state.register klass) state.objects.length := by
  refine ⟨?_, ?_, ?_⟩
  · simp [register]
  · rw [klass_register_new]
    simp [register]
  · rw [klass_register_new]
    simp [register, classFromId]

omit wellFormed in
/-- What is registered was so before, or is the new class. -/
theorem registered_register_cases
    {klass : JavaClass} {object : Nat}
    (registered : Registered (state.register klass) object) :
    Registered state object ∨ object = state.objects.length := by
  obtain ⟨allocated, id_lt, listed⟩ := registered
  rcases Nat.lt_or_ge object state.objects.length with older | newer
  · rw [klass_register_of_lt klass older] at id_lt listed
    rcases Nat.lt_or_ge (state.klass object).classId state.classList.length with below | above
    · refine Or.inl ⟨older, below, ?_⟩
      rwa [(extends_register klass).classFromId_eq below] at listed
    · simp only [register, List.length_append, List.length_singleton] at id_lt
      have same : (state.klass object).classId = state.classList.length := by omega
      right
      rw [← listed, same]
      simp [register, classFromId]
  · right
    simp only [register, List.length_append, List.length_singleton] at allocated
    omega

theorem grown_register
    {klass : JavaClass}
    (room : state.classList.length < maxClasses)
    (noArray : klass.arrayClass = none)
    (noNext : klass.next = none)
    (element : ∀ element, klass.kind = .objArrayClass element → Registered state element) :
    Grown 1 state (state.register klass) where
  wellFormed :=
    have extends' : Extends state (state.register klass) := extends_register klass
    { bounded := by
        simp only [register, List.length_append, List.length_singleton]
        omega
      listed := by
        intro classId inside
        simp only [register, List.length_append, List.length_singleton] at inside
        rcases Nat.lt_or_ge classId state.classList.length with older | newer
        · obtain ⟨registered, listed⟩ := wellFormed.listed classId older
          rw [extends'.classFromId_eq older]
          refine ⟨extends'.registered registered, ?_⟩
          rw [klass_register_of_lt klass registered.allocated]
          exact listed
        · have same : classId = state.classList.length := by omega
          have found : (state.register klass).classFromId classId = state.objects.length := by
            rw [same]
            simp [register, classFromId]
          rw [found]
          refine ⟨registered_register_new klass, ?_⟩
          rw [klass_register_new, same]
      typeArrays := by
        intro chr simple
        obtain ⟨registered, kind⟩ := wellFormed.typeArrays chr simple
        rw [extends'.typeArrays]
        refine ⟨extends'.registered registered, ?_⟩
        rw [klass_register_of_lt klass registered.allocated]
        exact kind
      arrays := by
        intro object array registered held
        rcases registered_register_cases registered with older | rfl
        · rw [klass_register_of_lt klass older.allocated] at held
          obtain ⟨registered', kind⟩ := wellFormed.arrays object array older held
          refine ⟨extends'.registered registered', ?_⟩
          rw [klass_register_of_lt klass registered'.allocated]
          exact kind
        · rw [klass_register_new] at held
          rw [show _ = none from noArray] at held
          cases held
      elements := by
        intro object element' registered kind
        rcases registered_register_cases registered with older | rfl
        · rw [klass_register_of_lt klass older.allocated] at kind
          exact extends'.registered (wellFormed.elements object element' older kind)
        · rw [klass_register_new] at kind
          exact extends'.registered (element element' kind)
      heads := by
        intro head member
        exact extends'.linked (wellFormed.heads head member)
      nexts := by
        intro object next linked held
        rcases registered_register_cases linked.1 with older | rfl
        · rw [klass_register_of_lt klass older.allocated] at held
          refine extends'.linked (wellFormed.nexts object next ⟨older, ?_⟩ held)
          have isInstance := linked.2
          rwa [klass_register_of_lt klass older.allocated] at isInstance
        · rw [klass_register_new] at held
          rw [show _ = none from noNext] at held
          cases held
      nears := by
        intro name marked
        rcases wellFormed.nears name marked with one | ⟨classId, inside, encoded⟩
        · exact Or.inl one
        · refine Or.inr ⟨classId, ?_, encoded⟩
          simp only [register, List.length_append, List.length_singleton]
          omega }
  extends' := extends_register klass
  length_le := by simp [register]

end Changes

/-! ## Operations -/

/-- The only fault of looking types up. -/
def NoMemory (fault : Failure) : Prop :=
  fault = .outOfMemoryError

section Operations

variable {before : Universe} (wellFormed : WellFormed before)
include wellFormed

theorem allocate_adds :
    Adds 0 allocate before (fun _ after => ∃ room, after = { before with room }) NoMemory := by
  unfold allocate
  refine Adds.get ?_
  split
  · exact Adds.throw wellFormed rfl
  · rename_i room _
    exact (Adds.set (grown_withRoom wellFormed room)).mono (Nat.le_refl _)
      (fun _ _ _ same => ⟨room, same⟩) (fun _ holds => holds)

theorem symbolFor_adds (bytes : Name) :
    Adds 0 (symbolFor bytes) before
      (fun symbol after => symbol = bytes ∧ ∃ room, after = { before with room }) NoMemory := by
  unfold symbolFor
  split
  · exact Adds.throw wellFormed rfl
  · change Adds (0 + 0) _ _ _ _
    refine Adds.bind (allocate_adds wellFormed) ?_
    intro _ between grown same
    exact Adds.pure grown.wellFormed ⟨rfl, same⟩

end Operations

end Universe

end PicoJvm.Loading
