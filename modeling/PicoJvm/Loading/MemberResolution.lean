import Mathlib.Logic.Relation
import PicoJvm.Dispatch.Klass
import PicoJvm.Lib.Fallible
import PicoJvm.Names.ClassPackage

/-!
# Resolving references to methods

A reference to a method is resolved the first time it is called, each kind of call with its own
checks. A method that was not found is a null handle: reading a field through it is a fault of its
own.
-/

namespace PicoJvm.MemberResolution

open PicoJvm.Dispatch (Access Klass Method lookupMethod findMethod)
open PicoJvm.Lib.Fallible
open PicoJvm.Loading (Name)
open PicoJvm.Names (isSameClassPackage)

/-! ## Classes -/

/-- `InstanceClass`, as resolution sees it: its flags, and the class with its superclasses. -/
structure InstanceClass where
  classId : Nat
  name : Name
  isInterface : Bool
  isPublic : Bool
  isFinal : Bool
  isSuper : Bool
  isHidden : Bool
  isPreloaded : Bool
  klasses : List Klass
  localInterfaces : List Nat
  deriving DecidableEq, Repr

/-- `Universe::class_from_id`. Interfaces stand below what they extend. -/
structure ClassList where
  classFromId : Nat → InstanceClass
  depth : Nat → Nat
  interfaces_lower : ∀ {id interface},
    interface ∈ (classFromId id).localInterfaces → depth interface < depth id

/-- An interface is the class itself, or one that it or an interface of it extends. -/
def ClassList.Extends (classes : ClassList) : Nat → Nat → Prop :=
  Relation.ReflTransGen fun id interface => interface ∈ (classes.classFromId id).localInterfaces

namespace InstanceClass

/-- `equals`. -/
def equals (this other : InstanceClass) : Bool :=
  decide (this.classId = other.classId)

/-- `is_subclass_of`. -/
def isSubclassOf (this other : InstanceClass) : Bool :=
  this.klasses.any fun klass => decide (klass.classId = other.classId)

/-- `find_local_method`. -/
def findLocalMethod (this : InstanceClass) (name signature : String) : Option Method :=
  match this.klasses with
  | [] => none
  | klass :: _ => findMethod name signature false klass.methods

/-- `lookup_method`. -/
def lookupMethod (this : InstanceClass) (name signature : String) : Option Method :=
  Dispatch.lookupMethod this.klasses name signature false

end InstanceClass

/-- `lookup_method_in_all_interfaces`, as deep as `depth`. -/
def lookupMethodInAllInterfaces (classes : ClassList) (name signature : String) :
    (depth : Nat) → InstanceClass → Option (Nat × Method)
  | 0, _ => none
  | depth + 1, klass =>
      match klass.findLocalMethod name signature with
      | some method => some (klass.classId, method)
      | none =>
          klass.localInterfaces.findSome? fun interface =>
            lookupMethodInAllInterfaces classes name signature depth (classes.classFromId interface)

/-! ## Constants -/

/-- A constant for a method. A method stands for its slots in the tables and for its signature. -/
inductive Entry
  | unresolved
  | resolvedStaticMethod (method : Method)
  | resolvedVirtualMethod (classId : Nat) (method : Method)
  | resolvedInterfaceMethod (classId : Nat) (method : Method)
  | resolvedUncommonInterfaceMethod (classId : Nat) (method : Method)
  | resolvedFinalUncommonInterfaceMethod (method : Method)
  deriving DecidableEq, Repr

/-- Errors that are thrown, and a field read of a method that is null. -/
inductive LinkFault
  /-- What `resolve_helper` throws: the constants are invalid, or the class is not found. -/
  | helper
  | noSuchMethodError
  | incompatibleClassChangeError
  | illegalAccessError
  | classNotFound
  /-- The class initializer of the method's holder throws. -/
  | initialization
  | nullRead
  deriving DecidableEq, Repr

/-- What `resolve_helper` finds. -/
structure Reference where
  name : String
  signature : String
  klass : InstanceClass
  deriving DecidableEq, Repr

/-- The kinds of calls. -/
inductive Kind
  | virtual | special | static | interface
  deriving DecidableEq, Repr

/-- A call that is to be resolved. -/
structure Call where
  kind : Kind
  classes : ClassList
  sender : InstanceClass
  /-- `resolve_helper`. -/
  helper : Except LinkFault Reference
  helper_fault : ∀ {fault}, helper = .error fault → fault = .helper
  helper_listed :
    ∀ {reference}, helper = .ok reference →
      classes.classFromId reference.klass.classId = reference.klass
  /-- `initialize`, of the class with an id. -/
  initializes : Nat → Bool
  doInit : Bool

/-! ## The source -/

/-- A field of the method a handle stands for. -/
def read {value : Type} (method : Option Method) (field : Method → value) : Except LinkFault value :=
  match method with
  | some method => .ok (field method)
  | none => .error .nullRead

/-- `Method::is_hidden`, where members are not hidden: it looks at no method. -/
def isHiddenMethod (_ : Option Method) : Bool :=
  false

/-- `InstanceClass::check_access_by` lets the sender have the class. -/
def classAccessFault (sender klass : InstanceClass) : Option LinkFault :=
  if sender.isPreloaded then
    none
  else if klass.isHidden then
    some .classNotFound
  else if klass.isPublic || isSameClassPackage klass.name sender.name then
    none
  else
    some .illegalAccessError

def checkClassAccess (sender klass : InstanceClass) : Except LinkFault Unit :=
  match classAccessFault sender klass with
  | none => .ok ()
  | some fault => .error fault

/-- `Method::can_access_by`. -/
def canAccessBy (classes : ClassList) (sender receiver : InstanceClass) (method : Method) : Bool :=
  let holder := classes.classFromId method.holder
  if method.access = .isPublic then
    true
  else if holder.equals sender then
    true
  else if method.access = .isPrivate then
    false
  else if isSameClassPackage holder.name sender.name then
    true
  else
    decide (method.access = .isProtected) && sender.isSubclassOf holder &&
      (receiver.equals sender || receiver.isSubclassOf sender || sender.isSubclassOf receiver)

/-- `Method::check_access_by`. -/
def checkMethodAccess (classes : ClassList) (sender receiver : InstanceClass)
    (method : Option Method) : Except LinkFault Unit := do
  if ← read method (canAccessBy classes sender receiver) then
    return ()
  else
    throw .illegalAccessError

/-- `lookup_method_at`, of a constant that is no resolved virtual method. -/
def lookupMethodAt (call : Call) : Except LinkFault (Reference × Option Method) := do
  let reference ← call.helper
  let method := reference.klass.lookupMethod reference.name reference.signature
  if isHiddenMethod method then
    throw .noSuchMethodError
  checkClassAccess call.sender reference.klass
  checkMethodAccess call.classes call.sender reference.klass method
  return (reference, method)

/-- `resolve_method_ref`. -/
def resolveMethodRef (receiver : InstanceClass) (method : Method) : Except LinkFault Bool × Entry :=
  if receiver.isFinal || method.isFinal || method.isStatic || method.isObjectInitializer then
    (.ok true, .resolvedStaticMethod method)
  else
    (.ok false, .resolvedVirtualMethod receiver.classId method)

/-- The constant is resolved once the checks have been passed. -/
def finish (entry : Entry) (checked : Except LinkFault (InstanceClass × Method)) :
    Except LinkFault Bool × Entry :=
  match checked with
  | .error fault => (.error fault, entry)
  | .ok (receiver, method) => resolveMethodRef receiver method

/-- The checks of `resolve_invoke_virtual_at`. -/
def checkVirtual (call : Call) : Except LinkFault (InstanceClass × Method) := do
  let (reference, method) ← lookupMethodAt call
  if reference.klass.isInterface then
    throw .incompatibleClassChangeError
  if ← read method Method.isStatic then
    throw .incompatibleClassChangeError
  return (reference.klass, ← read method id)

/-- The checks of `resolve_invoke_special_at`. -/
def checkSpecial (call : Call) : Except LinkFault (InstanceClass × Method) := do
  let (reference, method) ← lookupMethodAt call
  if ← read method Method.isStatic then
    throw .incompatibleClassChangeError
  if reference.name = "<init>" then
    if reference.klass.classId ≠ (← read method Method.holder) then
      throw .noSuchMethodError
    return (reference.klass, ← read method id)
  else if call.sender.isSuper && !call.sender.equals reference.klass &&
      call.sender.isSubclassOf reference.klass then
    match Dispatch.lookupMethod call.sender.klasses.tail reference.name reference.signature false with
    | none => throw .noSuchMethodError
    | some found => return (call.classes.classFromId found.holder, found)
  else
    return (reference.klass, ← read method id)

/-- The checks of `resolve_invoke_static_at` behind the lookup. -/
def checkStatic (call : Call) (method : Method) : Except LinkFault Bool := do
  if !method.isStatic then
    throw .incompatibleClassChangeError
  if !call.sender.isPreloaded && (call.classes.classFromId method.holder).isHidden then
    throw .noSuchMethodError
  if call.doInit && !call.initializes method.holder then
    throw .initialization
  return true

/-- The checks of `resolve_invoke_interface_at`, with the entry a method is put down as. -/
def checkInterface (call : Call) : Except LinkFault Entry := do
  let reference ← call.helper
  if !reference.klass.isInterface then
    throw .incompatibleClassChangeError
  checkClassAccess call.sender reference.klass
  match lookupMethodInAllInterfaces call.classes reference.name reference.signature
      (call.classes.depth reference.klass.classId + 1) reference.klass with
  | some (interfaceClassId, method) =>
      if isHiddenMethod (some method) then
        throw .noSuchMethodError
      if method.access ≠ .isPublic then
        throw .illegalAccessError
      return .resolvedInterfaceMethod interfaceClassId method
  | none =>
      -- a method of java.lang.Object masquerading as one of the interface
      let method := reference.klass.lookupMethod reference.name reference.signature
      if isHiddenMethod method then
        throw .noSuchMethodError
      if (← read method Method.access) ≠ .isPublic then
        throw .illegalAccessError
      if (← read method Method.isStatic) || (← read method Method.isObjectInitializer) then
        throw .incompatibleClassChangeError
      let found ← read method id
      match resolveMethodRef (call.classes.classFromId found.holder) found with
      | (_, .resolvedVirtualMethod classId method) =>
          return .resolvedUncommonInterfaceMethod classId method
      | _ => return .resolvedFinalUncommonInterfaceMethod found

/-- `resolve_invoke_virtual_at`, `resolve_invoke_special_at`, `resolve_invoke_static_at` and
`resolve_invoke_interface_at`. -/
def resolveInvoke (call : Call) (entry : Entry) : Except LinkFault Bool × Entry :=
  match call.kind, entry with
  | .static, .resolvedStaticMethod method => (checkStatic call method, entry)
  | .static, .resolvedVirtualMethod _ _ => (.error .incompatibleClassChangeError, entry)
  | .static, _ =>
      match lookupMethodAt call with
      | .error fault => (.error fault, entry)
      | .ok (_, none) => (.error .nullRead, entry)
      | .ok (_, some method) => (checkStatic call method, .resolvedStaticMethod method)
  | .interface, .unresolved =>
      match checkInterface call with
      | .error fault => (.error fault, entry)
      | .ok resolved => (.ok true, resolved)
  | .interface, _ => (.ok true, entry)
  | .virtual, .resolvedVirtualMethod _ _ => (.ok false, entry)
  | .special, .resolvedVirtualMethod _ _ => (.ok false, entry)
  | .virtual, .resolvedStaticMethod method =>
      (if method.isStatic then .error .incompatibleClassChangeError else .ok true, entry)
  | .special, .resolvedStaticMethod method =>
      (if method.isStatic then .error .incompatibleClassChangeError else .ok true, entry)
  | .virtual, _ => finish entry (checkVirtual call)
  | .special, _ => finish entry (checkSpecial call)

/-! ## What is to hold -/

/-- Neither the class nor, for an interface, what it extends has the method. -/
def IsMissing (call : Call) (reference : Reference) : Prop :=
  reference.klass.lookupMethod reference.name reference.signature = none ∧
    (call.kind = .interface →
      ∀ interface, call.classes.Extends reference.klass.classId interface →
        (call.classes.classFromId interface).findLocalMethod
          reference.name reference.signature = none)

/-- A missing method ends in an error that is thrown, and a failed resolution leaves the constant
unresolved. The class initializer only runs once the method has been resolved. -/
structure FailsCleanly (call : Call) : Prop where
  missing :
    ∀ reference, call.helper = .ok reference → IsMissing call reference →
      ∃ fault, (resolveInvoke call .unresolved).1 = .error fault ∧ fault ≠ .nullRead
  unresolved :
    ∀ fault, (resolveInvoke call .unresolved).1 = .error fault → fault ≠ .initialization →
      (resolveInvoke call .unresolved).2 = .unresolved

/-- The class of the reference is refused before its methods are looked at. -/
def ClassRefused (call : Call) (klass : InstanceClass) : Prop :=
  (classAccessFault call.sender klass).isSome ∨ call.kind = .interface ∧ klass.isInterface = false

/-- A method that is called as a static one but is none, or belongs to a hidden class. -/
def StaticRefused (call : Call) (method : Method) : Prop :=
  method.isStatic = false ∨
    call.sender.isPreloaded = false ∧ (call.classes.classFromId method.holder).isHidden = true

/-- The reference is found invalid by `resolve_helper`; or its class is refused; or its method is
found, and is no static method that is refused although the sender can access it. -/
def IsHandled (call : Call) : Prop :=
  ∀ reference, call.helper = .ok reference → ¬ ClassRefused call reference.klass →
    ¬ IsMissing call reference ∧
      (call.kind = .static →
        ∀ method, reference.klass.lookupMethod reference.name reference.signature = some method →
          canAccessBy call.classes call.sender reference.klass method = true →
            ¬ StaticRefused call method)

/-! ## The lookup -/

section Lookups

variable {call : Call} {reference : Reference} {fault : LinkFault}

theorem classAccessFault_ne_nullRead
    {sender klass : InstanceClass}
    (refused : classAccessFault sender klass = some fault) :
    fault ≠ .nullRead := by
  unfold classAccessFault at refused
  split at refused
  · cases refused
  · split at refused
    · cases refused
      decide
    · split at refused
      · cases refused
      · cases refused
        decide

@[simp] theorem checkMethodAccess_none
    (classes : ClassList)
    (sender receiver : InstanceClass) :
    checkMethodAccess classes sender receiver none = .error .nullRead :=
  rfl

theorem checkMethodAccess_some
    (classes : ClassList)
    (sender receiver : InstanceClass)
    (method : Method) :
    checkMethodAccess classes sender receiver (some method) =
      if canAccessBy classes sender receiver method then .ok () else .error .illegalAccessError :=
  rfl

theorem lookupMethodAt_error (helperFails : call.helper = .error fault) :
    lookupMethodAt call = .error fault := by
  rw [lookupMethodAt, helperFails]
  rfl

/-- The lookup, once the class of the reference is known. -/
theorem lookupMethodAt_ok (helperFinds : call.helper = .ok reference) :
    lookupMethodAt call = do
      checkClassAccess call.sender reference.klass
      checkMethodAccess call.classes call.sender reference.klass
        (reference.klass.lookupMethod reference.name reference.signature)
      return (reference, reference.klass.lookupMethod reference.name reference.signature) := by
  rw [lookupMethodAt, helperFinds]
  rfl

theorem checkClassAccess_refused
    {sender klass : InstanceClass}
    (refused : classAccessFault sender klass = some fault) :
    checkClassAccess sender klass = .error fault := by
  rw [checkClassAccess, refused]

theorem checkClassAccess_accepted
    {sender klass : InstanceClass}
    (accepted : classAccessFault sender klass = none) :
    checkClassAccess sender klass = .ok () := by
  rw [checkClassAccess, accepted]

theorem lookupMethodAt_refused
    (helperFinds : call.helper = .ok reference)
    (refused : classAccessFault call.sender reference.klass = some fault) :
    lookupMethodAt call = .error fault := by
  simp [lookupMethodAt_ok helperFinds, checkClassAccess_refused refused]

/-- Nothing between the lookup and the access check tests the method for null. -/
theorem lookupMethodAt_missing
    (helperFinds : call.helper = .ok reference)
    (accepted : classAccessFault call.sender reference.klass = none)
    (missing : reference.klass.lookupMethod reference.name reference.signature = none) :
    lookupMethodAt call = .error .nullRead := by
  simp [lookupMethodAt_ok helperFinds, checkClassAccess_accepted accepted, missing]

/-- What the lookup finds is a method the sender may access. -/
theorem lookupMethodAt_eq_ok_iff {method : Option Method} :
    lookupMethodAt call = .ok (reference, method) ↔
      call.helper = .ok reference ∧ classAccessFault call.sender reference.klass = none ∧
        reference.klass.lookupMethod reference.name reference.signature = method ∧
          ∃ found, method = some found ∧
            canAccessBy call.classes call.sender reference.klass found = true := by
  cases helperFinds : call.helper with
  | error fault =>
      simp [lookupMethodAt_error helperFinds]
  | ok found =>
      cases refused : classAccessFault call.sender found.klass with
      | some fault =>
          rw [lookupMethodAt_refused helperFinds refused]
          constructor
          · intro isOk
            cases isOk
          · rintro ⟨same, accepted, _⟩
            cases same
            rw [refused] at accepted
            cases accepted
      | none =>
          rw [lookupMethodAt_ok helperFinds, checkClassAccess_accepted refused, ok_bind]
          cases looked : found.klass.lookupMethod found.name found.signature with
          | none =>
              simp
              rintro rfl _ rfl
              simp [looked]
          | some holder =>
              rw [checkMethodAccess_some]
              by_cases allowed :
                  canAccessBy call.classes call.sender found.klass holder = true
              · rw [if_pos allowed]
                simp
                rintro rfl
                constructor
                · rintro rfl
                  exact ⟨refused, looked, holder, rfl, allowed⟩
                · rintro ⟨_, same, _⟩
                  exact looked.symm.trans same
              · rw [if_neg allowed]
                simp
                rintro rfl _ same other rfl
                rw [looked] at same
                cases same
                simpa using allowed

/-- The interfaces are searched to the end. -/
theorem lookupMethodInAllInterfaces_eq_none_iff
    {classes : ClassList}
    {name signature : String}
    {id depth : Nat}
    (enough : classes.depth id < depth) :
    lookupMethodInAllInterfaces classes name signature depth (classes.classFromId id) = none ↔
      ∀ interface, classes.Extends id interface →
        (classes.classFromId interface).findLocalMethod name signature = none := by
  induction depth generalizing id with
  | zero =>
      omega
  | succ depth inductionHypothesis =>
      rw [lookupMethodInAllInterfaces]
      cases found : (classes.classFromId id).findLocalMethod name signature with
      | some method =>
          have isFound : ¬ (classes.classFromId id).findLocalMethod name signature = none := by
            simp [found]
          simp only [reduceCtorEq, false_iff]
          intro allMissing
          exact isFound (allMissing id Relation.ReflTransGen.refl)
      | none =>
          have missingAbove :
              ∀ interface ∈ (classes.classFromId id).localInterfaces,
                lookupMethodInAllInterfaces classes name signature depth
                    (classes.classFromId interface) = none ↔
                  ∀ other, classes.Extends interface other →
                    (classes.classFromId other).findLocalMethod name signature = none :=
            fun interface listed =>
              inductionHypothesis
                (Nat.lt_of_lt_of_le (classes.interfaces_lower listed) (Nat.le_of_lt_succ enough))
          simp only [List.findSome?_eq_none_iff]
          constructor
          · intro allMissing interface extended
            rcases Relation.ReflTransGen.cases_head extended with same | ⟨first, listed, onward⟩
            · rw [← same]
              exact found
            · exact (missingAbove first listed).mp (allMissing first listed) interface onward
          · intro allMissing interface listed
            apply (missingAbove interface listed).mpr
            intro other onward
            exact allMissing other (Relation.ReflTransGen.head listed onward)

end Lookups

/-! ## The calls -/

section Calls

variable {call : Call} {reference : Reference} {fault : LinkFault}

theorem checkVirtual_error (lookupFails : lookupMethodAt call = .error fault) :
    checkVirtual call = .error fault := by
  simp [checkVirtual, lookupFails]

theorem checkSpecial_error (lookupFails : lookupMethodAt call = .error fault) :
    checkSpecial call = .error fault := by
  simp [checkSpecial, lookupFails]

theorem resolveInvoke_eq :
    resolveInvoke call .unresolved =
      match call.kind with
      | .virtual => finish .unresolved (checkVirtual call)
      | .special => finish .unresolved (checkSpecial call)
      | .static =>
          match lookupMethodAt call with
          | .error fault => (.error fault, .unresolved)
          | .ok (_, none) => (.error .nullRead, .unresolved)
          | .ok (_, some method) => (checkStatic call method, .resolvedStaticMethod method)
      | .interface =>
          match checkInterface call with
          | .error fault => (.error fault, .unresolved)
          | .ok resolved => (.ok true, resolved) := by
  obtain ⟨kind⟩ := call
  cases kind <;> rfl

/-- A failed lookup ends every call but an interface's with its fault. -/
theorem resolveInvoke_error
    (notInterface : call.kind ≠ .interface)
    (lookupFails : lookupMethodAt call = .error fault) :
    resolveInvoke call .unresolved = (.error fault, .unresolved) := by
  cases kind : call.kind with
  | virtual =>
      simp only [resolveInvoke_eq, kind, checkVirtual_error lookupFails, finish]
  | special =>
      simp only [resolveInvoke_eq, kind, checkSpecial_error lookupFails, finish]
  | static =>
      simp only [resolveInvoke_eq, kind, lookupFails]
  | interface =>
      exact absurd kind notInterface

theorem finish_unresolved
    {checked : Except LinkFault (InstanceClass × Method)}
    (failed : (finish .unresolved checked).1 = .error fault) :
    (finish .unresolved checked).2 = .unresolved := by
  cases checked with
  | error reason =>
      rfl
  | ok found =>
      simp only [finish, resolveMethodRef] at failed
      split at failed
      · cases failed
      · cases failed

/-- Only a static call puts its method down before it is checked. -/
theorem resolveInvoke_unresolved
    (notStatic : call.kind ≠ .static)
    (failed : (resolveInvoke call .unresolved).1 = .error fault) :
    (resolveInvoke call .unresolved).2 = .unresolved := by
  cases kind : call.kind with
  | virtual =>
      simp only [resolveInvoke_eq, kind] at failed ⊢
      exact finish_unresolved failed
  | special =>
      simp only [resolveInvoke_eq, kind] at failed ⊢
      exact finish_unresolved failed
  | static =>
      exact absurd kind notStatic
  | interface =>
      simp only [resolveInvoke_eq, kind] at failed ⊢
      cases checked : checkInterface call with
      | error reason =>
          rfl
      | ok resolved =>
          rw [checked] at failed
          cases failed

/-- An interface whose methods are looked at. -/
theorem checkInterface_missing
    (kind : call.kind = .interface)
    (helperFinds : call.helper = .ok reference)
    (isInterface : reference.klass.isInterface = true)
    (accepted : classAccessFault call.sender reference.klass = none)
    (missing : IsMissing call reference) :
    checkInterface call = .error .nullRead := by
  have noInterface :
      lookupMethodInAllInterfaces call.classes reference.name reference.signature
        (call.classes.depth reference.klass.classId + 1) reference.klass = none := by
    have searched :=
      (lookupMethodInAllInterfaces_eq_none_iff (Nat.lt_succ_self _)).mpr (missing.2 kind)
    rwa [call.helper_listed helperFinds] at searched
  simp [checkInterface, helperFinds, isInterface, checkClassAccess_accepted accepted, noInterface,
    missing.1, isHiddenMethod, read]

theorem checkInterface_refused
    (helperFinds : call.helper = .ok reference)
    (refused :
      (classAccessFault call.sender reference.klass).isSome ∨ reference.klass.isInterface = false) :
    ∃ fault, checkInterface call = .error fault ∧ fault ≠ .nullRead := by
  cases isInterface : reference.klass.isInterface with
  | false =>
      exact ⟨.incompatibleClassChangeError, by simp [checkInterface, helperFinds, isInterface],
        by decide⟩
  | true =>
      have hasFault : (classAccessFault call.sender reference.klass).isSome = true := by
        simpa [isInterface] using refused
      obtain ⟨fault, isFault⟩ := Option.isSome_iff_exists.mp hasFault
      exact ⟨fault,
        by simp [checkInterface, helperFinds, isInterface, checkClassAccess_refused isFault],
        classAccessFault_ne_nullRead isFault⟩

/-- A method that is missing is read, unless its class is refused before that. -/
theorem resolveInvoke_missing
    (helperFinds : call.helper = .ok reference)
    (notRefused : ¬ ClassRefused call reference.klass)
    (missing : IsMissing call reference) :
    (resolveInvoke call .unresolved).1 = .error .nullRead := by
  have accepted : classAccessFault call.sender reference.klass = none := by
    simpa using fun isRefused => notRefused (Or.inl isRefused)
  by_cases kind : call.kind = .interface
  · have isInterface : reference.klass.isInterface = true := by
      simpa using fun notInterface => notRefused (Or.inr ⟨kind, notInterface⟩)
    simp only [resolveInvoke_eq, kind,
      checkInterface_missing kind helperFinds isInterface accepted missing]
  · rw [resolveInvoke_error kind (lookupMethodAt_missing helperFinds accepted missing.1)]

/-- A class that is refused ends the call with an error that is thrown. -/
theorem resolveInvoke_refused
    (helperFinds : call.helper = .ok reference)
    (refused : ClassRefused call reference.klass) :
    ∃ fault, (resolveInvoke call .unresolved).1 = .error fault ∧ fault ≠ .nullRead := by
  by_cases kind : call.kind = .interface
  · obtain ⟨fault, isFault, notRead⟩ :=
      checkInterface_refused helperFinds (refused.imp id And.right)
    exact ⟨fault, by simp only [resolveInvoke_eq, kind, isFault], notRead⟩
  · have hasFault : (classAccessFault call.sender reference.klass).isSome = true := by
      simpa [ClassRefused, kind] using refused
    obtain ⟨fault, isFault⟩ := Option.isSome_iff_exists.mp hasFault
    refine ⟨fault, ?_, classAccessFault_ne_nullRead isFault⟩
    rw [resolveInvoke_error kind (lookupMethodAt_refused helperFinds isFault)]

/-- Behind the lookup a static call fails on a method that is refused, or in its initializer. -/
theorem checkStatic_error_iff {method : Method} :
    (∃ fault, checkStatic call method = .error fault ∧ fault ≠ .initialization) ↔
      StaticRefused call method := by
  unfold checkStatic StaticRefused
  cases method.isStatic with
  | false =>
      simp
  | true =>
      by_cases isHidden :
          call.sender.isPreloaded = false ∧
            (call.classes.classFromId method.holder).isHidden = true
      · simp [isHidden]
      · have notThrown :
            (!call.sender.isPreloaded &&
              (call.classes.classFromId method.holder).isHidden) = false := by
          simpa using isHidden
        cases initialized : call.doInit && !call.initializes method.holder with
        | true =>
            simp [notThrown, isHidden]
        | false =>
            simp [notThrown, isHidden]

theorem resolveInvoke_static_ok
    {method : Method}
    (kind : call.kind = .static)
    (found : lookupMethodAt call = .ok (reference, some method)) :
    resolveInvoke call .unresolved = (checkStatic call method, .resolvedStaticMethod method) := by
  simp only [resolveInvoke_eq, kind, found]

end Calls

/-- A class that has no methods. -/
def emptyClass : InstanceClass where
  classId := 1
  name := [0x41]
  isInterface := false
  isPublic := true
  isFinal := false
  isSuper := true
  isHidden := false
  isPreloaded := false
  klasses := []
  localInterfaces := []

/-- A virtual call, in the class itself, of a method it does not have. -/
def emptyClassCall : Call where
  kind := .virtual
  classes :=
    { classFromId := fun _ => emptyClass
      depth := fun _ => 0
      interfaces_lower := fun listed => absurd listed List.not_mem_nil }
  sender := emptyClass
  helper := .ok { name := "m", signature := "()V", klass := emptyClass }
  helper_fault := by simp
  helper_listed := by simp
  initializes := fun _ => true
  doInit := true

/-- The missing method is read. -/
theorem not_failsCleanly_emptyClassCall : ¬ FailsCleanly emptyClassCall := by
  intro clean
  have isMissing :
      IsMissing emptyClassCall { name := "m", signature := "()V", klass := emptyClass } :=
    ⟨rfl, fun kind => by cases kind⟩
  obtain ⟨fault, isFault, notRead⟩ := clean.missing _ rfl isMissing
  have reads : (resolveInvoke emptyClassCall .unresolved).1 = .error .nullRead := rfl
  rw [reads] at isFault
  cases isFault
  exact notRead rfl

/-- The calls that fail cleanly. -/
theorem failsCleanly_iff (call : Call) : FailsCleanly call ↔ IsHandled call := by
  constructor
  · intro clean reference helperFinds notRefused
    constructor
    · intro missing
      obtain ⟨fault, isFault, notRead⟩ := clean.missing reference helperFinds missing
      rw [resolveInvoke_missing helperFinds notRefused missing] at isFault
      cases isFault
      exact notRead rfl
    · intro kind method looked allowed refused
      have accepted : classAccessFault call.sender reference.klass = none := by
        simpa using fun isRefused => notRefused (Or.inl isRefused)
      have resolved := resolveInvoke_static_ok kind
        (lookupMethodAt_eq_ok_iff.2 ⟨helperFinds, accepted, looked, method, rfl, allowed⟩)
      obtain ⟨fault, isFault, notInitializer⟩ := checkStatic_error_iff.2 refused
      have unresolved := clean.unresolved fault (by rw [resolved]; exact isFault) notInitializer
      rw [resolved] at unresolved
      cases unresolved
  · intro handled
    constructor
    · intro reference helperFinds missing
      apply resolveInvoke_refused helperFinds
      by_contra notRefused
      exact (handled reference helperFinds notRefused).1 missing
    · intro fault isFault notInitializer
      by_cases kind : call.kind = .static
      · cases lookup : lookupMethodAt call with
        | error reason =>
            rw [resolveInvoke_error (by simp [kind]) lookup]
        | ok found =>
            obtain ⟨reference, method⟩ := found
            obtain ⟨helperFinds, accepted, looked, holder, rfl, allowed⟩ :=
              lookupMethodAt_eq_ok_iff.1 lookup
            have notRefused : ¬ ClassRefused call reference.klass := by
              simp [ClassRefused, accepted, kind]
            rw [resolveInvoke_static_ok kind lookup] at isFault
            exact absurd (checkStatic_error_iff.1 ⟨fault, isFault, notInitializer⟩)
              ((handled reference helperFinds notRefused).2 kind holder looked allowed)
      · exact resolveInvoke_unresolved kind isFault

end PicoJvm.MemberResolution
