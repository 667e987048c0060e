import PicoJvm.Arrays.Subtyping
import PicoJvm.Lib.Chunks

/-!
# Copying between arrays

`System.arraycopy`. The checks are made in 32 bits. The elements of primitive arrays are moved as
bytes, those of object arrays as words where the element classes allow it and one by one where each
of them has to be checked.
-/

namespace PicoJvm.Arrays

open PicoJvm.Lib.Ring (overwrite overwrite_length overwrite_overwrite)
open PicoJvm.Lib.Chunks

/-! ## Objects -/

abbrev Ref := Nat

/-- An object. In one that is no array, some word stands where arrays have their length. -/
inductive Obj
  | other (klass : Nat) (word : BitVec 32)
  | typeArray (type : BasicType) (count : Nat) (bytes : List UInt8)
  | objArray (element : Klass) (elements : List (Option Ref))
  deriving Repr

/-- `blueprint`. -/
def Obj.klass : Obj → Klass
  | .other klass _ => .instanceClass klass
  | .typeArray type _ _ => .typeArray type
  | .objArray element _ => .objArray element

/-- `length()`, of whatever object it is. -/
def Obj.length : Obj → BitVec 32
  | .other _ word => word
  | .typeArray _ count _ => BitVec.ofNat 32 count
  | .objArray _ elements => BitVec.ofNat 32 elements.length

/-- The objects, and what the classes remember of earlier subtype checks. -/
structure World where
  objects : Ref → Obj
  caches : Caches

namespace World

/-- The object with other elements. -/
def put (world : World) (ref : Ref) (obj : Obj) : World where
  objects := Function.update world.objects ref obj
  caches := world.caches

/-- The elements of an object array. -/
def elements (world : World) (ref : Ref) : List (Option Ref) :=
  match world.objects ref with
  | .objArray _ elements => elements
  | _ => []

/-- `obj_at_put`. -/
def objAtPut (world : World) (ref : Ref) (index : Nat) (value : Option Ref) : World :=
  match world.objects ref with
  | .objArray element elements => world.put ref (.objArray element (elements.set index value))
  | _ => world

end World

inductive ArrayStoreMessage
  | arraycopyIncompatibleTypes
  | subtypeCheckFailed
  deriving DecidableEq, Repr

inductive Thrown
  | nullPointerException
  | arrayIndexOutOfBoundsException
  | arrayStoreException (message : ArrayStoreMessage)
  deriving DecidableEq, Repr

/-- How a call ends. -/
structure Outcome where
  thrown : Option Thrown
  world : World

/-! ## The source -/

variable (hierarchy : Hierarchy)

/-- The slow case of `ObjArray::array_copy`, from an index on. -/
def storeElements (src dst : Ref) (bound : Klass) (srcPos dstPos : Nat) :
    Nat → Nat → World → Outcome
  | 0, _, world => ⟨none, world⟩
  | count + 1, index, world =>
      match (world.elements src).getD (srcPos + index) none with
      | none =>
          storeElements src dst bound srcPos dstPos count (index + 1)
            (world.objAtPut dst (dstPos + index) none)
      | some element =>
          let answer := isSubtypeOf hierarchy (world.objects element).klass bound world.caches
          let world := { world with caches := answer.2 }
          if answer.1 then
            storeElements src dst bound srcPos dstPos count (index + 1)
              (world.objAtPut dst (dstPos + index) (some element))
          else
            ⟨some (.arrayStoreException .subtypeCheckFailed), world⟩

/-- `ObjArray::array_copy`. -/
def objArrayCopy (world : World) (src : Ref) (stype : Klass) (source : List (Option Ref))
    (srcPos : Nat) (dst : Ref) (bound : Klass) (target : List (Option Ref)) (dstPos length : Nat) :
    Outcome :=
  let moved := (source.drop srcPos).take length
  if length = 0 then
    ⟨none, world⟩
  else if src = dst then
    ⟨none, world.put dst (.objArray bound (overwrite target dstPos moved))⟩
  else if stype = bound then
    ⟨none, world.put dst (.objArray bound (overwrite target dstPos moved))⟩
  else
    let answer := isSubtypeOf hierarchy stype bound world.caches
    let world := { world with caches := answer.2 }
    if answer.1 then
      ⟨none, world.put dst (.objArray bound (overwrite target dstPos moved))⟩
    else
      storeElements hierarchy src dst bound srcPos dstPos length 0 world

/-- The bytes in front of an element. -/
def byteOffset (position : BitVec 32) (type : BasicType) : Nat :=
  (position * BitVec.ofNat 32 type.scale).toNat

/-- `TypeArray::array_copy`. -/
def typeArrayCopy (world : World) (type : BasicType) (source : List UInt8) (srcPos : BitVec 32)
    (dst : Ref) (count : Nat) (target : List UInt8) (dstPos length : BitVec 32) : Outcome :=
  let moved := (source.drop (byteOffset srcPos type)).take (byteOffset length type)
  ⟨none, world.put dst (.typeArray type count (overwrite target (byteOffset dstPos type) moved))⟩

/-- The checks of offsets and lengths. -/
def throwsOutOfBounds (srcLength dstLength srcPos dstPos length : BitVec 32) : Bool :=
  decide (srcPos.toInt < 0) || decide (dstPos.toInt < 0) || decide (length.toInt < 0) ||
    decide ((length + srcPos).toNat > srcLength.toNat) ||
    decide ((length + dstPos).toNat > dstLength.toNat)

/-- `Java_java_lang_System_arraycopy`. -/
def arraycopy (world : World) (src : Option Ref) (srcPos : BitVec 32) (dst : Option Ref)
    (dstPos length : BitVec 32) : Outcome :=
  match src, dst with
  | some src, some dst =>
      let outOfBounds := throwsOutOfBounds (world.objects src).length (world.objects dst).length
        srcPos dstPos length
      match world.objects src, world.objects dst with
      | .objArray stype source, .objArray bound target =>
          if outOfBounds then
            ⟨some .arrayIndexOutOfBoundsException, world⟩
          else
            objArrayCopy hierarchy world src stype source srcPos.toNat dst bound target dstPos.toNat
              length.toNat
      | .typeArray srcType _ source, .typeArray dstType count target =>
          if srcType ≠ dstType then
            ⟨some (.arrayStoreException .arraycopyIncompatibleTypes), world⟩
          else if outOfBounds then
            ⟨some .arrayIndexOutOfBoundsException, world⟩
          else
            typeArrayCopy world srcType source srcPos dst count target dstPos length
      | _, _ => ⟨some (.arrayStoreException .arraycopyIncompatibleTypes), world⟩
  | _, _ => ⟨some .nullPointerException, world⟩

/-! ## What it is to do -/

/-- The ranges lie within the arrays. -/
def InBounds (srcLength dstLength : Nat) (srcPos dstPos length : Int) : Prop :=
  0 ≤ srcPos ∧ 0 ≤ dstPos ∧ 0 ≤ length ∧ srcPos + length ≤ srcLength ∧ dstPos + length ≤ dstLength

instance (srcLength dstLength : Nat) (srcPos dstPos length : Int) :
    Decidable (InBounds srcLength dstLength srcPos dstPos length) :=
  inferInstanceAs (Decidable (_ ∧ _))

/-- An element that may not be stored in an array of a class. -/
def Offends (objects : Ref → Obj) (bound : Klass) : Option Ref → Prop
  | none => False
  | some element => ¬ IsSubtype hierarchy (objects element).klass bound

/-- The objects once elements have been written into an object array. -/
def elementsWritten (objects : Ref → Obj) (dst : Ref) (bound : Klass) (target : List (Option Ref))
    (dstPos : Nat) (moved : List (Option Ref)) : Ref → Obj :=
  Function.update objects dst (.objArray bound (overwrite target dstPos moved))

/-- What a call throws, and the objects it leaves. Elements are copied as through a temporary
array. -/
inductive Specified (objects : Ref → Obj) :
    Option Ref → Int → Option Ref → Int → Int → Option Thrown → (Ref → Obj) → Prop
  | nullPointer {src dst : Option Ref} {srcPos dstPos length : Int} :
      src = none ∨ dst = none →
      Specified objects src srcPos dst dstPos length (some .nullPointerException) objects
  | notAlike {src dst : Ref} {srcPos dstPos length : Int} :
      (∀ stype source bound target,
        ¬ (objects src = .objArray stype source ∧ objects dst = .objArray bound target)) →
      (∀ type count source count' target,
        ¬ (objects src = .typeArray type count source ∧ objects dst = .typeArray type count' target)) →
      Specified objects (some src) srcPos (some dst) dstPos length
        (some (.arrayStoreException .arraycopyIncompatibleTypes)) objects
  | objArrayBounds {src dst : Ref} {srcPos dstPos length : Int} {stype bound : Klass}
      {source target : List (Option Ref)} :
      objects src = .objArray stype source → objects dst = .objArray bound target →
      ¬ InBounds source.length target.length srcPos dstPos length →
      Specified objects (some src) srcPos (some dst) dstPos length
        (some .arrayIndexOutOfBoundsException) objects
  | typeArrayBounds {src dst : Ref} {srcPos dstPos length : Int} {type : BasicType}
      {count count' : Nat} {source target : List UInt8} :
      objects src = .typeArray type count source → objects dst = .typeArray type count' target →
      ¬ InBounds count count' srcPos dstPos length →
      Specified objects (some src) srcPos (some dst) dstPos length
        (some .arrayIndexOutOfBoundsException) objects
  | typeArrayCopied {src dst : Ref} {srcPos dstPos length : Int} {type : BasicType}
      {count count' : Nat} {source target written : List UInt8} :
      objects src = .typeArray type count source → objects dst = .typeArray type count' target →
      InBounds count count' srcPos dstPos length →
      chunks type.scale count' written =
        overwrite (chunks type.scale count' target) dstPos.toNat
          (((chunks type.scale count source).drop srcPos.toNat).take length.toNat) →
      written.length = target.length →
      Specified objects (some src) srcPos (some dst) dstPos length none
        (Function.update objects dst (.typeArray type count' written))
  | objArrayCopied {src dst : Ref} {srcPos dstPos length : Int} {stype bound : Klass}
      {source target : List (Option Ref)} :
      objects src = .objArray stype source → objects dst = .objArray bound target →
      InBounds source.length target.length srcPos dstPos length →
      (∀ element ∈ (source.drop srcPos.toNat).take length.toNat,
        ¬ Offends hierarchy objects bound element) →
      Specified objects (some src) srcPos (some dst) dstPos length none
        (elementsWritten objects dst bound target dstPos.toNat
          ((source.drop srcPos.toNat).take length.toNat))
  | objArrayStopped {src dst : Ref} {srcPos dstPos length : Int} {stype bound : Klass}
      {source target before after : List (Option Ref)} {element : Option Ref} :
      objects src = .objArray stype source → objects dst = .objArray bound target →
      InBounds source.length target.length srcPos dstPos length →
      (source.drop srcPos.toNat).take length.toNat = before ++ element :: after →
      (∀ earlier ∈ before, ¬ Offends hierarchy objects bound earlier) →
      Offends hierarchy objects bound element →
      Specified objects (some src) srcPos (some dst) dstPos length
        (some (.arrayStoreException .subtypeCheckFailed))
        (elementsWritten objects dst bound target dstPos.toNat before)

/-- Elements conform to the class of their array, arrays fit into memory, and only subtypes are
remembered. -/
structure World.Sound (world : World) : Prop where
  conforms : ∀ {ref bound elements element},
    world.objects ref = .objArray bound elements → element ∈ elements →
      ¬ Offends hierarchy world.objects bound element
  typed : ∀ {ref type count bytes},
    world.objects ref = .typeArray type count bytes →
      bytes.length = count * type.scale ∧ bytes.length < 2 ^ 31
  sized : ∀ {ref bound elements},
    world.objects ref = .objArray bound elements → elements.length < 2 ^ 31
  remembered : world.caches.Valid hierarchy

/-! ## The checks -/

section Bounds

variable {srcLength dstLength : Nat} {srcPos dstPos length : BitVec 32}

/-- Sums of two positive numbers do not wrap as unsigned ones. -/
theorem throwsOutOfBounds_iff
    (srcFits : srcLength < 2 ^ 31)
    (dstFits : dstLength < 2 ^ 31) :
    throwsOutOfBounds (BitVec.ofNat 32 srcLength) (BitVec.ofNat 32 dstLength) srcPos dstPos length =
        true ↔
      ¬ InBounds srcLength dstLength srcPos.toInt dstPos.toInt length.toInt := by
  have srcBound := srcPos.isLt
  have dstBound := dstPos.isLt
  have lengthBound := length.isLt
  simp only [throwsOutOfBounds, InBounds, Bool.or_eq_true, decide_eq_true_iff, BitVec.toNat_add,
    BitVec.toNat_ofNat, BitVec.toInt_eq_toNat_cond]
  split <;> split <;> split <;> omega

theorem InBounds.toNat
    (inBounds : InBounds srcLength dstLength srcPos.toInt dstPos.toInt length.toInt) :
    srcPos.toInt.toNat = srcPos.toNat ∧ dstPos.toInt.toNat = dstPos.toNat ∧
      length.toInt.toNat = length.toNat ∧ srcPos.toNat + length.toNat ≤ srcLength ∧
      dstPos.toNat + length.toNat ≤ dstLength := by
  have srcBound := srcPos.isLt
  have dstBound := dstPos.isLt
  have lengthBound := length.isLt
  simp only [InBounds, BitVec.toInt_eq_toNat_cond] at *
  split at inBounds <;> split at inBounds <;> split at inBounds <;> simp_all <;> omega

end Bounds

/-! ## Elements written -/

section Written

variable {hierarchy}
variable {objects : Ref → Obj} {dst : Ref} {bound : Klass} {source target : List (Option Ref)}

/-- Objects keep their classes. -/
theorem klass_elementsWritten
    (isDst : objects dst = .objArray bound target)
    (dstPos : Nat)
    (moved : List (Option Ref))
    (ref : Ref) :
    (elementsWritten objects dst bound target dstPos moved ref).klass = (objects ref).klass := by
  rw [elementsWritten]
  by_cases isSame : ref = dst
  · rw [isSame, Function.update_self, isDst]
    rfl
  · rw [Function.update_of_ne isSame]

theorem offends_elementsWritten
    (isDst : objects dst = .objArray bound target)
    (dstPos : Nat)
    (moved : List (Option Ref))
    (klass : Klass)
    (element : Option Ref) :
    Offends hierarchy (elementsWritten objects dst bound target dstPos moved) klass element ↔
      Offends hierarchy objects klass element := by
  cases element with
  | none =>
      rfl
  | some ref =>
      rw [Offends, Offends, klass_elementsWritten isDst]

theorem elementsWritten_nil
    (isDst : objects dst = .objArray bound target)
    {dstPos : Nat} :
    elementsWritten objects dst bound target dstPos [] = objects := by
  have same : overwrite target dstPos [] = target := by
    simp [overwrite]
  rw [elementsWritten, same, ← isDst, Function.update_eq_self]

/-- One element more. -/
theorem objAtPut_elementsWritten
    {world : World}
    {dstPos : Nat}
    {before : List (Option Ref)}
    (fits : dstPos + before.length < target.length)
    (written : world.objects = elementsWritten objects dst bound target dstPos before)
    (value : Option Ref) :
    (world.objAtPut dst (dstPos + before.length) value).objects =
        elementsWritten objects dst bound target dstPos (before ++ [value]) ∧
      (world.objAtPut dst (dstPos + before.length) value).caches = world.caches := by
  have isNow : world.objects dst = .objArray bound (overwrite target dstPos before) := by
    rw [written, elementsWritten, Function.update_self]
  have total : dstPos + (before ++ [value]).length ≤ target.length := by
    rw [List.length_append, List.length_singleton]
    omega
  have one : (overwrite target dstPos before).set (dstPos + before.length) value =
      overwrite target dstPos (before ++ [value]) := by
    rw [← overwrite_overwrite total, List.set_eq_take_append_cons_drop,
      overwrite_length (by omega), if_pos fits]
    generalize overwrite target dstPos before = now
    simp [overwrite]
  rw [World.objAtPut, isNow]
  refine ⟨?_, rfl⟩
  dsimp only
  rw [one, World.put]
  dsimp only
  rw [written, elementsWritten, Function.update_idem, elementsWritten]

/-- The end of the loop, or its first element that may not be stored. -/
structure Stored (hierarchy : Hierarchy) (objects : Ref → Obj) (dst : Ref) (bound : Klass)
    (target : List (Option Ref)) (dstPos : Nat) (moved : List (Option Ref)) (outcome : Outcome) :
    Prop where
  remembered : outcome.world.caches.Valid hierarchy
  ended :
    outcome.thrown = none ∧
        outcome.world.objects = elementsWritten objects dst bound target dstPos moved ∧
        (∀ element ∈ moved, ¬ Offends hierarchy objects bound element) ∨
      ∃ before element after,
        moved = before ++ element :: after ∧
        outcome.thrown = some (.arrayStoreException .subtypeCheckFailed) ∧
        outcome.world.objects = elementsWritten objects dst bound target dstPos before ∧
        (∀ earlier ∈ before, ¬ Offends hierarchy objects bound earlier) ∧
        Offends hierarchy objects bound element

theorem storeElements_stored
    {src : Ref}
    {stype : Klass}
    {srcPos dstPos total : Nat}
    {moved : List (Option Ref)}
    (different : src ≠ dst)
    (isSrc : objects src = .objArray stype source)
    (isDst : objects dst = .objArray bound target)
    (fits : dstPos + moved.length ≤ target.length)
    (isMoved : (source.drop srcPos).take total = moved)
    {before rest : List (Option Ref)}
    (split : moved = before ++ rest)
    {world : World}
    (remembered : world.caches.Valid hierarchy)
    (written : world.objects = elementsWritten objects dst bound target dstPos before)
    (allowed : ∀ earlier ∈ before, ¬ Offends hierarchy objects bound earlier) :
    Stored hierarchy objects dst bound target dstPos moved
      (storeElements hierarchy src dst bound srcPos dstPos rest.length before.length world) := by
  induction rest generalizing before world with
  | nil =>
      rw [List.append_nil] at split
      rw [split]
      exact ⟨remembered, Or.inl ⟨rfl, written, allowed⟩⟩
  | cons element rest inductionHypothesis =>
      have lengths := congrArg List.length split
      rw [List.length_append, List.length_cons] at lengths
      have stillFits : dstPos + before.length < target.length := by omega
      have isHere : (world.elements src).getD (srcPos + before.length) none = element := by
        have isSource : world.elements src = source := by
          rw [World.elements, written, elementsWritten, Function.update_of_ne different, isSrc]
        have inside : before.length < total := by
          have bounded := List.length_take_le total (source.drop srcPos)
          rw [isMoved] at bounded
          omega
        have found : moved[before.length]? = some element := by
          rw [split, List.getElem?_append_right (Nat.le_refl _), Nat.sub_self]
          rfl
        rw [← isMoved, List.getElem?_take, if_pos inside, List.getElem?_drop] at found
        rw [isSource, List.getD_eq_getElem?_getD, found]
        rfl
      have onward : moved = (before ++ [element]) ++ rest := by
        rw [split, List.append_assoc, List.singleton_append]
      have oneMore : (before ++ [element]).length = before.length + 1 := by
        rw [List.length_append, List.length_singleton]
      rw [List.length_cons, storeElements, isHere]
      cases element with
      | none =>
          obtain ⟨writtenNow, sameCaches⟩ := objAtPut_elementsWritten stillFits written none
          have stored := inductionHypothesis onward (sameCaches ▸ remembered) writtenNow
            (List.forall_mem_append.mpr ⟨allowed, List.forall_mem_singleton.mpr not_false⟩)
          rw [oneMore] at stored
          exact stored
      | some ref =>
          dsimp only
          obtain ⟨answered, stillValid⟩ :=
            isSubtypeOf_spec remembered (world.objects ref).klass bound
          have sameKlass : (world.objects ref).klass = (objects ref).klass := by
            rw [written, klass_elementsWritten isDst]
          rw [sameKlass] at answered stillValid ⊢
          split
          · next isSubtype =>
              have fine : ¬ Offends hierarchy objects bound (some ref) :=
                not_not.mpr (answered.mp isSubtype)
              have checked : ({ world with
                  caches := (isSubtypeOf hierarchy (objects ref).klass bound world.caches).2 } :
                    World).objects = elementsWritten objects dst bound target dstPos before :=
                written
              obtain ⟨writtenNow, sameCaches⟩ :=
                objAtPut_elementsWritten stillFits checked (some ref)
              have stored := inductionHypothesis onward (sameCaches ▸ stillValid) writtenNow
                (List.forall_mem_append.mpr ⟨allowed, List.forall_mem_singleton.mpr fine⟩)
              rw [oneMore] at stored
              exact stored
          · next notSubtype =>
              refine ⟨stillValid, Or.inr ⟨before, some ref, rest, split, rfl, written, allowed, ?_⟩⟩
              exact fun isSubtype => notSubtype (answered.mpr isSubtype)

/-- Elements that may be stored leave everything sound. -/
theorem sound_elementsWritten
    {world : World}
    (sound : world.Sound hierarchy)
    (isDst : world.objects dst = .objArray bound target)
    {dstPos : Nat}
    {moved : List (Option Ref)}
    (fits : dstPos + moved.length ≤ target.length)
    (allowed : ∀ element ∈ moved, ¬ Offends hierarchy world.objects bound element)
    {after : World}
    (written : after.objects = elementsWritten world.objects dst bound target dstPos moved)
    (remembered : after.caches.Valid hierarchy) :
    after.Sound hierarchy := by
  have newElements : ∀ element ∈ overwrite target dstPos moved,
      ¬ Offends hierarchy world.objects bound element := by
    intro element member
    rw [overwrite, List.mem_append, List.mem_append] at member
    obtain (before | inside) | behind := member
    · exact sound.conforms isDst (List.mem_of_mem_take before)
    · exact allowed element inside
    · exact sound.conforms isDst (List.mem_of_mem_drop behind)
  refine ⟨?_, ?_, ?_, remembered⟩
  · intro ref klass elements element isArray member
    rw [written] at isArray ⊢
    rw [offends_elementsWritten isDst]
    by_cases isSame : ref = dst
    · rw [isSame, elementsWritten, Function.update_self] at isArray
      cases isArray
      exact newElements element member
    · rw [elementsWritten, Function.update_of_ne isSame] at isArray
      exact sound.conforms isArray member
  · intro ref type count bytes isArray
    rw [written, elementsWritten] at isArray
    by_cases isSame : ref = dst
    · rw [isSame, Function.update_self] at isArray
      cases isArray
    · rw [Function.update_of_ne isSame] at isArray
      exact sound.typed isArray
  · intro ref klass elements isArray
    rw [written, elementsWritten] at isArray
    by_cases isSame : ref = dst
    · rw [isSame, Function.update_self] at isArray
      cases isArray
      rw [overwrite_length fits]
      exact sound.sized isDst
    · rw [Function.update_of_ne isSame] at isArray
      exact sound.sized isArray

/-- Whichever way the elements are copied. -/
theorem objArrayCopy_stored
    {world : World}
    (sound : world.Sound hierarchy)
    {src : Ref}
    {stype : Klass}
    (isSrc : world.objects src = .objArray stype source)
    (isDst : world.objects dst = .objArray bound target)
    {srcPos dstPos length : Nat}
    (srcFits : srcPos + length ≤ source.length)
    (dstFits : dstPos + length ≤ target.length) :
    Stored hierarchy world.objects dst bound target dstPos ((source.drop srcPos).take length)
      (objArrayCopy hierarchy world src stype source srcPos dst bound target dstPos length) := by
  have movedLength : ((source.drop srcPos).take length).length = length := by
    rw [List.length_take, List.length_drop]
    omega
  have conforms : ∀ element ∈ (source.drop srcPos).take length,
      ¬ Offends hierarchy world.objects stype element :=
    fun element member =>
      sound.conforms isSrc (List.mem_of_mem_drop (List.mem_of_mem_take member))
  rw [objArrayCopy]
  dsimp only
  split
  · next isZero =>
      rw [isZero, List.take_zero]
      exact ⟨sound.remembered,
        Or.inl ⟨rfl, (elementsWritten_nil isDst).symm, List.forall_mem_nil _⟩⟩
  · split
    · next isSame =>
        rw [isSame, isDst] at isSrc
        cases isSrc
        exact ⟨sound.remembered, Or.inl ⟨rfl, rfl, conforms⟩⟩
    · next different =>
        split
        · next isSame =>
            rw [isSame] at conforms
            exact ⟨sound.remembered, Or.inl ⟨rfl, rfl, conforms⟩⟩
        · obtain ⟨answered, stillValid⟩ := isSubtypeOf_spec sound.remembered stype bound
          split
          · next isSubtype =>
              refine ⟨stillValid, Or.inl ⟨rfl, rfl, ?_⟩⟩
              intro element member offends
              cases element with
              | none =>
                  exact offends
              | some ref =>
                  have below := not_not.mp (conforms (some ref) member)
                  exact offends (below.trans (answered.mp isSubtype))
          · have fits : dstPos + ((source.drop srcPos).take length).length ≤ target.length := by
              rw [movedLength]
              exact dstFits
            have fromStart : ({ world with
                caches := (isSubtypeOf hierarchy stype bound world.caches).2 } : World).objects =
                  elementsWritten world.objects dst bound target dstPos [] :=
              (elementsWritten_nil isDst).symm
            have stored := storeElements_stored different isSrc isDst fits rfl
              (List.nil_append _).symm stillValid fromStart (List.forall_mem_nil _)
            rw [movedLength] at stored
            exact stored

end Written

/-! ## Bytes moved -/

section Moved

variable {hierarchy}

theorem byteOffset_eq
    {position : BitVec 32}
    {type : BasicType}
    {count : Nat}
    (inside : position.toNat ≤ count)
    (fits : count * type.scale < 2 ^ 31) :
    byteOffset position type = position.toNat * type.scale := by
  have below : position.toNat * type.scale ≤ count * type.scale :=
    Nat.mul_le_mul_right type.scale inside
  have small : type.scale % 2 ^ 32 = type.scale := by
    cases type <;> rfl
  rw [byteOffset, BitVec.toNat_mul, BitVec.toNat_ofNat, small]
  exact Nat.mod_eq_of_lt (by omega)

/-- The bytes moved are the elements moved. -/
theorem typeArrayCopy_chunks
    {type : BasicType}
    {count count' : Nat}
    {source target : List UInt8}
    (isSource : source.length = count * type.scale ∧ source.length < 2 ^ 31)
    (isTarget : target.length = count' * type.scale ∧ target.length < 2 ^ 31)
    {srcPos dstPos length : BitVec 32}
    (srcFits : srcPos.toNat + length.toNat ≤ count)
    (dstFits : dstPos.toNat + length.toNat ≤ count') :
    let written := overwrite target (byteOffset dstPos type)
      ((source.drop (byteOffset srcPos type)).take (byteOffset length type))
    chunks type.scale count' written =
        overwrite (chunks type.scale count' target) dstPos.toNat
          (((chunks type.scale count source).drop srcPos.toNat).take length.toNat) ∧
      written.length = target.length := by
  have sourceFits : count * type.scale < 2 ^ 31 := by
    rw [← isSource.1]
    exact isSource.2
  have targetFits : count' * type.scale < 2 ^ 31 := by
    rw [← isTarget.1]
    exact isTarget.2
  intro written
  have isWritten : written = overwrite target (dstPos.toNat * type.scale)
      ((source.drop (srcPos.toNat * type.scale)).take (length.toNat * type.scale)) := by
    rw [← byteOffset_eq (by omega) targetFits, ← byteOffset_eq (by omega) sourceFits,
      ← byteOffset_eq (by omega) sourceFits]
  rw [isWritten]
  constructor
  · exact chunks_overwrite isSource.1 isTarget.1 srcFits dstFits
  · apply overwrite_length
    have above := Nat.mul_le_mul_right type.scale dstFits
    rw [Nat.add_mul] at above
    rw [List.length_take, List.length_drop, isTarget.1]
    omega

theorem sound_typeArray
    {world : World}
    (sound : world.Sound hierarchy)
    {dst : Ref}
    {type : BasicType}
    {count : Nat}
    {target written : List UInt8}
    (isDst : world.objects dst = .typeArray type count target)
    (sameLength : written.length = target.length) :
    (world.put dst (.typeArray type count written)).Sound hierarchy := by
  have sameKlass : ∀ ref, ((world.put dst (.typeArray type count written)).objects ref).klass =
      (world.objects ref).klass := by
    intro ref
    rw [World.put]
    dsimp only
    by_cases isSame : ref = dst
    · rw [isSame, Function.update_self, isDst]
      rfl
    · rw [Function.update_of_ne isSame]
  refine ⟨?_, ?_, ?_, sound.remembered⟩
  · intro ref bound elements element isArray member
    by_cases isSame : ref = dst
    · rw [isSame, World.put] at isArray
      dsimp only at isArray
      rw [Function.update_self] at isArray
      cases isArray
    · rw [World.put] at isArray
      dsimp only at isArray
      rw [Function.update_of_ne isSame] at isArray
      have conforms := sound.conforms isArray member
      cases element with
      | none =>
          exact conforms
      | some ref =>
          rw [Offends, sameKlass]
          exact conforms
  · intro ref type' count' bytes isArray
    rw [World.put] at isArray
    dsimp only at isArray
    by_cases isSame : ref = dst
    · rw [isSame, Function.update_self] at isArray
      cases isArray
      rw [sameLength]
      exact sound.typed isDst
    · rw [Function.update_of_ne isSame] at isArray
      exact sound.typed isArray
  · intro ref bound elements isArray
    rw [World.put] at isArray
    dsimp only at isArray
    by_cases isSame : ref = dst
    · rw [isSame, Function.update_self] at isArray
      cases isArray
    · rw [Function.update_of_ne isSame] at isArray
      exact sound.sized isArray

end Moved

/-! ## Whole calls -/

section Calls

variable {hierarchy}

/-- A call throws what it is to throw, and leaves the objects it is to leave. -/
structure Satisfies (hierarchy : Hierarchy) (world : World) (src : Option Ref)
    (srcPos : BitVec 32) (dst : Option Ref) (dstPos length : BitVec 32) (outcome : Outcome) :
    Prop where
  specified :
    Specified hierarchy world.objects src srcPos.toInt dst dstPos.toInt length.toInt outcome.thrown
      outcome.world.objects
  sound : outcome.world.Sound hierarchy

variable {world : World} {src dst : Ref} {srcPos dstPos length : BitVec 32}

theorem objArrays_satisfy
    (sound : world.Sound hierarchy)
    {stype bound : Klass}
    {source target : List (Option Ref)}
    (isSrc : world.objects src = .objArray stype source)
    (isDst : world.objects dst = .objArray bound target) :
    Satisfies hierarchy world (some src) srcPos (some dst) dstPos length
      (arraycopy hierarchy world (some src) srcPos (some dst) dstPos length) := by
  have bounds : throwsOutOfBounds (Obj.objArray stype source).length
      (Obj.objArray bound target).length srcPos dstPos length = true ↔ _ :=
    throwsOutOfBounds_iff (sound.sized isSrc) (sound.sized isDst)
  rw [arraycopy, isSrc, isDst]
  dsimp only
  by_cases inBounds : InBounds source.length target.length srcPos.toInt dstPos.toInt length.toInt
  · rw [if_neg fun outOfBounds => bounds.mp outOfBounds inBounds]
    obtain ⟨srcNat, dstNat, lengthNat, srcFits, dstFits⟩ := inBounds.toNat
    have stored := objArrayCopy_stored sound isSrc isDst srcFits dstFits
    have movedLength : ((source.drop srcPos.toNat).take length.toNat).length = length.toNat := by
      rw [List.length_take, List.length_drop]
      omega
    obtain ⟨thrown, written, allowed⟩ | ⟨before, element, after, split, thrown, written, allowed,
      offends⟩ := stored.ended
    · refine ⟨?_, sound_elementsWritten sound isDst ?_ allowed written stored.remembered⟩
      · rw [thrown, written]
        rw [← srcNat, ← lengthNat] at allowed
        rw [← srcNat, ← dstNat, ← lengthNat]
        exact .objArrayCopied isSrc isDst inBounds allowed
      · rw [movedLength]
        exact dstFits
    · have shorter := congrArg List.length split
      rw [movedLength, List.length_append, List.length_cons] at shorter
      refine ⟨?_, sound_elementsWritten sound isDst (by omega) allowed written stored.remembered⟩
      rw [← srcNat, ← lengthNat] at split
      rw [thrown, written, ← dstNat]
      exact .objArrayStopped isSrc isDst inBounds split allowed offends
  · rw [if_pos (bounds.mpr inBounds)]
    exact ⟨.objArrayBounds isSrc isDst inBounds, sound⟩

theorem typeArrays_satisfy
    (sound : world.Sound hierarchy)
    {type : BasicType}
    {count count' : Nat}
    {source target : List UInt8}
    (isSrc : world.objects src = .typeArray type count source)
    (isDst : world.objects dst = .typeArray type count' target) :
    Satisfies hierarchy world (some src) srcPos (some dst) dstPos length
      (arraycopy hierarchy world (some src) srcPos (some dst) dstPos length) := by
  have one : 1 ≤ type.scale := by
    cases type <;> decide
  have srcSized := sound.typed isSrc
  have dstSized := sound.typed isDst
  have srcSmall : count ≤ count * type.scale := Nat.le_mul_of_pos_right count one
  have dstSmall : count' ≤ count' * type.scale := Nat.le_mul_of_pos_right count' one
  have bounds : throwsOutOfBounds (Obj.typeArray type count source).length
      (Obj.typeArray type count' target).length srcPos dstPos length = true ↔ _ :=
    throwsOutOfBounds_iff (by omega) (by omega)
  rw [arraycopy, isSrc, isDst]
  dsimp only
  rw [if_neg (not_not.mpr rfl)]
  by_cases inBounds : InBounds count count' srcPos.toInt dstPos.toInt length.toInt
  · rw [if_neg fun outOfBounds => bounds.mp outOfBounds inBounds]
    obtain ⟨srcNat, dstNat, lengthNat, srcFits, dstFits⟩ := inBounds.toNat
    obtain ⟨pieces, sameLength⟩ := typeArrayCopy_chunks srcSized dstSized srcFits dstFits
    refine ⟨?_, sound_typeArray sound isDst sameLength⟩
    apply Specified.typeArrayCopied isSrc isDst inBounds
    · rw [srcNat, dstNat, lengthNat]
      exact pieces
    · exact sameLength
  · rw [if_pos (bounds.mpr inBounds)]
    exact ⟨.typeArrayBounds isSrc isDst inBounds, sound⟩

theorem notAlike_satisfies
    (sound : world.Sound hierarchy)
    (notObjects : ∀ stype source bound target,
      ¬ (world.objects src = .objArray stype source ∧ world.objects dst = .objArray bound target))
    (notTypes : ∀ type count source count' target,
      ¬ (world.objects src = .typeArray type count source ∧
        world.objects dst = .typeArray type count' target))
    (thrown : arraycopy hierarchy world (some src) srcPos (some dst) dstPos length =
      ⟨some (.arrayStoreException .arraycopyIncompatibleTypes), world⟩) :
    Satisfies hierarchy world (some src) srcPos (some dst) dstPos length
      (arraycopy hierarchy world (some src) srcPos (some dst) dstPos length) := by
  rw [thrown]
  exact ⟨.notAlike notObjects notTypes, sound⟩

end Calls

/-- Every call of `System.arraycopy` is as specified. -/
theorem arraycopy_satisfies
    {hierarchy : Hierarchy}
    {world : World}
    (sound : world.Sound hierarchy)
    (src : Option Ref)
    (srcPos : BitVec 32)
    (dst : Option Ref)
    (dstPos length : BitVec 32) :
    Satisfies hierarchy world src srcPos dst dstPos length
      (arraycopy hierarchy world src srcPos dst dstPos length) := by
  cases src with
  | none =>
      exact ⟨.nullPointer (Or.inl rfl), sound⟩
  | some src =>
      cases dst with
      | none =>
          exact ⟨.nullPointer (Or.inr rfl), sound⟩
      | some dst =>
          cases isSrc : world.objects src with
          | other klass word =>
              apply notAlike_satisfies sound
              · intro stype source bound target both
                rw [isSrc] at both
                cases both.1
              · intro type count source count' target both
                rw [isSrc] at both
                cases both.1
              · rw [arraycopy, isSrc]
          | typeArray srcType count source =>
              cases isDst : world.objects dst with
              | other klass word =>
                  apply notAlike_satisfies sound
                  · intro stype source bound target both
                    rw [isSrc] at both
                    cases both.1
                  · intro type count source count' target both
                    rw [isDst] at both
                    cases both.2
                  · rw [arraycopy, isSrc, isDst]
              | typeArray dstType count' target =>
                  by_cases sameType : srcType = dstType
                  · rw [sameType] at isSrc
                    exact typeArrays_satisfy sound isSrc isDst
                  · apply notAlike_satisfies sound
                    · intro stype source bound target both
                      rw [isSrc] at both
                      cases both.1
                    · intro type count source count' target both
                      rw [isSrc, isDst] at both
                      cases both.1
                      cases both.2
                      exact sameType rfl
                    · rw [arraycopy, isSrc, isDst]
                      dsimp only
                      rw [if_pos sameType]
              | objArray bound target =>
                  apply notAlike_satisfies sound
                  · intro stype source bound target both
                    rw [isSrc] at both
                    cases both.1
                  · intro type count source count' target both
                    rw [isDst] at both
                    cases both.2
                  · rw [arraycopy, isSrc, isDst]
          | objArray stype source =>
              cases isDst : world.objects dst with
              | other klass word =>
                  apply notAlike_satisfies sound
                  · intro stype source bound target both
                    rw [isDst] at both
                    cases both.2
                  · intro type count source count' target both
                    rw [isDst] at both
                    cases both.2
                  · rw [arraycopy, isSrc, isDst]
              | typeArray dstType count' target =>
                  apply notAlike_satisfies sound
                  · intro stype source bound target both
                    rw [isDst] at both
                    cases both.2
                  · intro type count source count' target both
                    rw [isSrc] at both
                    cases both.1
                  · rw [arraycopy, isSrc, isDst]
              | objArray bound target =>
                  exact objArrays_satisfy sound isSrc isDst

/-- Only `java.lang.Object` and classes right below it. -/
def plainHierarchy : Hierarchy where
  objectClass := 0
  isInterface _ := false
  supers id := if id = 0 then [0] else [id, 0]
  itable _ := []
  supers_self id := by
    split
    · next isObject => simp [isObject]
    · simp
  supers_closed := by
    intro id super above
    by_cases isObject : id = 0 <;> by_cases superObject : super = 0 <;> simp_all
  itable_supers := by simp
  itable_closed := by simp
  interface_supers := by simp
  object_supers := by simp
  object_itable := rfl
  object_not_interface := rfl

/-- An array with an object and a null. -/
def twoElements : World where
  objects ref :=
    if ref = 0 then .objArray (.instanceClass 0) [some 1, none] else .other 0 0
  caches := ⟨fun _ => none, fun _ => none⟩

theorem twoElements_sound : twoElements.Sound plainHierarchy := by
  refine ⟨?_, ?_, ?_, ?_⟩
  · intro ref bound elements element isArray member
    rw [twoElements] at isArray
    dsimp only at isArray
    split at isArray
    · cases isArray
      cases element with
      | none =>
          exact id
      | some element =>
          have isOne : element = 1 := by simpa using member
          rw [isOne]
          exact not_not.mpr (Or.inl rfl)
    · cases isArray
  · intro ref type count bytes isArray
    rw [twoElements] at isArray
    dsimp only at isArray
    split at isArray
    · cases isArray
    · cases isArray
  · intro ref bound elements isArray
    rw [twoElements] at isArray
    dsimp only at isArray
    split at isArray
    · cases isArray
      decide
    · cases isArray
  · intro self other remembers
    obtain impossible | impossible := remembers
    · cases impossible
    · cases impossible

theorem arraycopy_twoElements :
    Satisfies plainHierarchy twoElements (some 0) 0 (some 0) 1 1
      (arraycopy plainHierarchy twoElements (some 0) 0 (some 0) 1 1) :=
  arraycopy_satisfies twoElements_sound (some 0) 0 (some 0) 1 1

end PicoJvm.Arrays
