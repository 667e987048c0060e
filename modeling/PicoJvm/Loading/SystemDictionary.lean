import PicoJvm.Loading.ClassName

/-!
# `SystemDictionary`

Instance classes hang in bucket chains by the hash of their names. A class that a
signature mentions before it is loaded is stood in for by a fake class, which the
real one replaces under the same id.
-/

namespace PicoJvm.Loading

/-- `ResolveMode`. -/
inductive ResolveMode
  | fullResolve
  | semiResolve
  deriving DecidableEq, Repr

namespace Universe

variable (state : Universe)

/-- The bucket a name belongs to. -/
def bucketOf (name : Name) : Nat :=
  Interning.SymbolTable.hash name % state.dictionary.length

/-- `SystemDictionary::bucket_for`. -/
def bucketFor (name : Name) : Option Nat :=
  state.dictionary.getD (state.bucketOf name) none

/-- `SystemDictionary::set_bucket_for`. -/
def setBucketFor (name : Name) (bucket : Option Nat) : Universe :=
  { state with dictionary := state.dictionary.set (state.bucketOf name) bucket }

/-- `JavaClass::set_next`. -/
def setNext (object : Nat) (next : Option Nat) : Universe :=
  state.update object fun klass => { klass with next }

/-- The first class of a chain that a test picks. -/
def findInChain (wanted : JavaClass → Bool) : Nat → Option Nat → Option Nat
  | 0, _ => none
  | _, none => none
  | fuel + 1, some object =>
      if wanted (state.klass object) then
        some object
      else
        findInChain wanted fuel (state.klass object).next

/-- `SystemDictionary::find_class_in_dictionary`. -/
def findClassInDictionary (mode : ResolveMode) (lookupOnly : Bool) (name : Name) : Option Nat :=
  state.findInChain
    (fun klass => decide (klass.name = some name) &&
      (lookupOnly || !(klass.isFakeClass && decide (mode ≠ .semiResolve))))
    (state.objects.length + 1) (state.bucketFor name)

/-- `SystemDictionary::find`, with `check_only`. -/
def find (mode : ResolveMode) (name : Name) : Option Nat :=
  state.findClassInDictionary mode false name

/-- `Universe::pop_class_id`: the new class, last in the class list, takes the place of the
old one. -/
def popClassId (newClass oldClass : Nat) : Universe :=
  let oldIndex := (state.klass oldClass).classId
  { state with
    classList := (state.classList.set oldIndex newClass).dropLast }.update newClass
      fun klass => { klass with classId := oldIndex }

/-- `ArrayClass::set_element_class`. -/
def setElementClass (array element : Nat) : Universe :=
  state.update array fun klass => { klass with kind := .objArrayClass element }

/-- `SystemDictionary::update_fake_class`. -/
def updateFakeClass (realClass fakeClass : Nat) : Universe :=
  let popped := state.popClassId realClass fakeClass
  match (popped.klass fakeClass).arrayClass with
  | none => popped
  | some array =>
      (popped.setElementClass array realClass).update realClass
        fun klass => { klass with arrayClass := some array }

/-- The loop of `SystemDictionary::insert` that takes a class of the same name out of its
chain; `last` is the class in front of `object`, or `object` itself at the head. -/
def replaceFakeClass (realClass : Nat) (name : Name) : Nat → Nat → Option Nat → Universe
  | 0, _, _ => state
  | _, _, none => state
  | fuel + 1, last, some object =>
      let next := (state.klass object).next
      if (state.klass object).name = some name then
        let unlinked :=
          if object = last then state.setBucketFor name next else state.setNext last next
        unlinked.updateFakeClass realClass object
      else
        replaceFakeClass realClass name fuel object next

/-- `SystemDictionary::insert`. -/
def insert (mode : ResolveMode) (object : Nat) (name : Name) : Universe :=
  let replaced :=
    match mode with
    | .semiResolve => state
    | .fullResolve =>
        match state.bucketFor name with
        | none => state
        | some head =>
            state.replaceFakeClass object name (state.objects.length + 1) head (some head)
  (replaced.setNext object (replaced.bucketFor name)).setBucketFor name (some object)

end Universe

/-- `SystemDictionary::create_fake_class`. -/
def createFakeClass (name : Name) : Operation Nat := do
  let object ← newInstanceClass true name
  modify (Universe.insert · .semiResolve object name)
  return object

/-- `SystemDictionary::semi_resolve`. -/
def semiResolve (name : Name) : Operation Nat := do
  let state ← get
  if state.isValidClassName name then
    match state.arrayClassForEncodedName name with
    | some array => return array
    | none =>
        match state.find .semiResolve name with
        | some object => return object
        | none => createFakeClass name
  else
    throw .classNotFound

end PicoJvm.Loading
