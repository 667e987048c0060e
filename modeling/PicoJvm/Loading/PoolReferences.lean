import PicoJvm.Loading.InvokeConflicts

/-!
# The indices in a reference

A field or method reference is a word with the index of a class in its low half and the index of a
name and type in its high half. The resolver takes the word apart by itself. The class file parser
and everything else go through the accessors of the constant pool.
-/

namespace PicoJvm.PoolReferences

open PicoJvm.InvokeConflicts

/-! ## The words -/

/-- `construct_jint_from_jushorts`. -/
def constructJintFromJushorts (high low : BitVec 16) : BitVec 32 :=
  high.setWidth 32 <<< 16 ||| low.setWidth 32

/-- `extract_high_jshort_from_jint`. -/
def extractHighJshortFromJint (value : BitVec 32) : BitVec 16 :=
  (value.sshiftRight 16 &&& 0xffff#32).setWidth 16

section Words

variable (high low : BitVec 16)

theorem constructJintFromJushorts_toNat :
    (constructJintFromJushorts high low).toNat = high.toNat * 65536 + low.toNat := by
  have highBound := high.isLt
  have lowBound := low.isLt
  have highFits : high.toNat % 2 ^ 32 = high.toNat := Nat.mod_eq_of_lt (by omega)
  have lowFits : low.toNat % 2 ^ 32 = low.toNat := Nat.mod_eq_of_lt (by omega)
  have shifted : high.toNat <<< 16 % 2 ^ 32 = high.toNat <<< 16 := by
    rw [Nat.shiftLeft_eq]
    exact Nat.mod_eq_of_lt (by omega)
  rw [constructJintFromJushorts, BitVec.toNat_or, BitVec.toNat_shiftLeft, BitVec.toNat_setWidth,
    BitVec.toNat_setWidth, highFits, lowFits, shifted, ← Nat.shiftLeft_add_eq_or_of_lt lowBound,
    Nat.shiftLeft_eq]

@[simp] theorem lowHalf_construct : lowHalf (constructJintFromJushorts high low) = low.toNat := by
  have lowBound := low.isLt
  rw [lowHalf, constructJintFromJushorts_toNat]
  omega

@[simp] theorem highHalf_construct :
    highHalf (constructJintFromJushorts high low) = high.toNat := by
  have lowBound := low.isLt
  rw [highHalf, constructJintFromJushorts_toNat]
  omega

/-- The signed half has the bits of the unsigned one. -/
theorem extractHighJshortFromJint_toNat
    (value : BitVec 32) :
    (extractHighJshortFromJint value).toNat = highHalf value := by
  have shifted : extractHighJshortFromJint value = (value >>> 16).setWidth 16 := by
    apply BitVec.eq_of_getLsbD_eq
    intro place inside
    have ones : (0xffff#32).getLsbD place = true := by
      have mask : (0xffff#32).getLsbD place = (2 ^ 16 - 1).testBit place := rfl
      rw [mask, Nat.testBit_two_pow_sub_one, decide_eq_true inside]
    have notBeyond : ¬ 32 ≤ place := by omega
    have within : 16 + place < 32 := by omega
    rw [extractHighJshortFromJint, BitVec.getLsbD_setWidth, BitVec.getLsbD_and,
      BitVec.getLsbD_sshiftRight, BitVec.getLsbD_setWidth, BitVec.getLsbD_ushiftRight]
    simp [inside, within, ones, notBeyond]
  have bound := value.isLt
  rw [shifted, BitVec.toNat_setWidth, BitVec.toNat_ushiftRight, Nat.shiftRight_eq_div_pow, highHalf]
  omega

/-- Widened to 32 bits, the signed half is the index or far beyond every constant pool. -/
theorem extractHighJshortFromJint_signExtend
    (value : BitVec 32) :
    ((extractHighJshortFromJint value).signExtend 32).toNat =
      if highHalf value < 32768 then highHalf value else highHalf value + 0xffff0000 := by
  have bound := (extractHighJshortFromJint value).isLt
  rw [← extractHighJshortFromJint_toNat, BitVec.toNat_signExtend, BitVec.msb_eq_decide]
  simp
  split <;> split <;> omega

end Words

/-! ## The accessors -/

/-- A field, a method or an interface method. -/
def fieldOrMethodTags : List Nat :=
  [9, 10, 11]

/-- `check_klass_at` accepts the index of a name as well. -/
def checkedKlassTags : List Nat :=
  [14, 7, 13]

/-- `klass_ref_index_at`, which asks for no tag of the reference. -/
def klassRefIndexAt (cp : ConstantPool) (index : Nat) : Option Nat := do
  let reference ← cp[index]?
  let classIndex := lowHalf reference.value
  let _ ← constantAt cp classIndex checkedKlassTags
  return classIndex

/-- `name_and_type_ref_index_at`. -/
def nameAndTypeRefIndexAt (cp : ConstantPool) (index : Nat) : Option Nat := do
  let reference ← constantAt cp index fieldOrMethodTags
  -- a signed half, compared as an unsigned word
  let nameAndTypeIndex := ((extractHighJshortFromJint reference.value).signExtend 32).toNat
  let _ ← constantAt cp nameAndTypeIndex [12]
  return nameAndTypeIndex

/-- `name_ref_index_at`. -/
def nameRefIndexAt (cp : ConstantPool) (index : Nat) : Option Nat := do
  let nameAndType ← constantAt cp index [12]
  let nameIndex := lowHalf nameAndType.value
  let _ ← constantAt cp nameIndex [1]
  return nameIndex

/-- `signature_ref_index_at`. -/
def signatureRefIndexAt (cp : ConstantPool) (index : Nat) : Option Nat := do
  let nameAndType ← constantAt cp index [12]
  let signatureIndex := highHalf nameAndType.value
  let _ ← constantAt cp signatureIndex [1]
  return signatureIndex

/-- The class, the name and the signature as the accessors find them: `klass_ref_index_at` and
`klass_at`, and the others with `symbol_at`. -/
def accessedReference (cp : ConstantPool) (index : Nat) : Option MethodReference := do
  let classIndex ← klassRefIndexAt cp index
  let nameAndTypeIndex ← nameAndTypeRefIndexAt cp index
  let nameIndex ← nameRefIndexAt cp nameAndTypeIndex
  let signatureIndex ← signatureRefIndexAt cp nameAndTypeIndex
  let klass ← constantAt cp classIndex [7, 13]
  let name ← cp[nameIndex]?
  let signature ← cp[signatureIndex]?
  return ⟨klass, name.value, signature.value⟩

/-! ## The class file parser -/

/-- The indices of a class, of a name and type, of a name and of a signature. -/
structure CheckedIndices where
  klass : Nat
  nameAndType : Nat
  name : Nat
  signature : Nat
  deriving DecidableEq, Repr

/-- The second pass of `validate_and_fixup_constant_pool_entries`, at a reference and at the
`NameAndType` it names. -/
def checkedIndices (cp : ConstantPool) (index : Nat) : Option CheckedIndices := do
  let klass ← klassRefIndexAt cp index
  let nameAndType ← nameAndTypeRefIndexAt cp index
  let signature ← signatureRefIndexAt cp nameAndType
  let name ← nameRefIndexAt cp nameAndType
  return ⟨klass, nameAndType, name, signature⟩

/-- A constant during the second pass, and once it has been fixed up, resolved or linked. -/
inductive FixedUp : Constant → Constant → Prop
  | refl (constant : Constant) : FixedUp constant constant
  | klass {name symbol : BitVec 32} : FixedUp ⟨14, name⟩ ⟨13, symbol⟩
  | resolved {name klass : BitVec 32} : FixedUp ⟨14, name⟩ ⟨7, klass⟩
  | utf8 {bytes symbol : BitVec 32} : FixedUp ⟨1, bytes⟩ ⟨1, symbol⟩
  | linked {before after : Constant} :
      before.tag ∉ [1, 7, 12, 13, 14] → after.tag ∉ [1, 7, 9, 10, 11, 12, 13, 14] →
      FixedUp before after

/-- What the resolver, the accessors and the class file parser find is the same. -/
structure IndicesAgree (parsed cp : ConstantPool) (index : Nat) : Prop where
  accessed : accessedReference cp index = methodReference cp index
  checked :
    ∀ reference, methodReference cp index = some reference →
      ∃ indices, checkedIndices parsed index = some indices ∧
        cp[indices.klass]? = some reference.klass ∧
        cp[indices.name]?.map Constant.value = some reference.name ∧
        cp[indices.signature]?.map Constant.value = some reference.signature

/-- The constant of a reference in a class file, and of a name and type. -/
def pairConstant (tag : Nat) (index1 index2 : BitVec 16) : Constant :=
  ⟨tag, constructJintFromJushorts index2 index1⟩

/-- The indices lead to constants of the right kinds. -/
def IsWellFormed (cp : ConstantPool) (classIndex nameAndTypeIndex : BitVec 16) : Prop :=
  (constantAt cp classIndex.toNat [7, 13]).isSome ∧
    ∃ nameAndType, constantAt cp nameAndTypeIndex.toNat [12] = some nameAndType ∧
      (constantAt cp (lowHalf nameAndType.value) [1]).isSome ∧
      (constantAt cp (highHalf nameAndType.value) [1]).isSome

/-! ## Constants found -/

section Found

variable {parsed cp : ConstantPool} {index : Nat} {tags : List Nat} {constant : Constant}

theorem constantAt_eq_some_iff :
    constantAt cp index tags = some constant ↔ cp[index]? = some constant ∧ constant.tag ∈ tags := by
  rw [constantAt, Option.filter_eq_some_iff, decide_eq_true_iff]

theorem constantAt_beyond
    (beyond : cp.length ≤ index) :
    constantAt cp index tags = none := by
  rw [constantAt, List.getElem?_eq_none beyond]
  rfl

/-- Where a constant comes from. -/
theorem FixedUp.getElem?
    (fixedUp : List.Forall₂ FixedUp parsed cp)
    (found : cp[index]? = some constant) :
    ∃ before, parsed[index]? = some before ∧ FixedUp before constant := by
  induction fixedUp generalizing index with
  | nil =>
      cases found
  | cons first others inductionHypothesis =>
      cases index with
      | zero =>
          cases found
          exact ⟨_, rfl, first⟩
      | succ index =>
          exact inductionHypothesis found

theorem FixedUp.pair
    {before : Constant}
    (fixedUp : FixedUp before constant)
    (isPair : constant.tag ∈ [9, 10, 11, 12]) :
    before = constant := by
  cases fixedUp with
  | refl =>
      rfl
  | linked notBefore notAfter =>
      simp at isPair notAfter
      omega
  | klass => simp at isPair
  | resolved => simp at isPair
  | utf8 => simp at isPair

theorem FixedUp.utf8_tag
    {before : Constant}
    (fixedUp : FixedUp before constant)
    (isUtf8 : constant.tag ∈ [1]) :
    before.tag ∈ [1] := by
  cases fixedUp with
  | refl => exact isUtf8
  | linked notBefore notAfter => simp_all
  | klass => simp at isUtf8
  | resolved => simp at isUtf8
  | utf8 => exact isUtf8

theorem FixedUp.klass_tag
    {before : Constant}
    (fixedUp : FixedUp before constant)
    (isKlass : constant.tag ∈ [7, 13]) :
    before.tag ∈ checkedKlassTags := by
  cases fixedUp with
  | refl => exact List.mem_cons_of_mem _ isKlass
  | linked notBefore notAfter =>
      simp at isKlass notAfter
      omega
  | klass => exact List.mem_cons_self
  | resolved => exact List.mem_cons_self
  | utf8 => simp at isKlass

end Found

/-! ## One reference -/

section Reference

variable {parsed cp : ConstantPool} {index tag : Nat} {classIndex nameAndTypeIndex : BitVec 16}

/-- What the resolver finds in a reference. -/
theorem methodReference_eq_some_iff
    (isReference : tag ∈ fieldOrMethodTags)
    (stored : cp[index]? = some (pairConstant tag classIndex nameAndTypeIndex))
    {reference : MethodReference} :
    methodReference cp index = some reference ↔
      ∃ nameAndType name signature,
        constantAt cp nameAndTypeIndex.toNat [12] = some nameAndType ∧
        constantAt cp classIndex.toNat [7, 13] = some reference.klass ∧
        constantAt cp (lowHalf nameAndType.value) [1] = some name ∧
        constantAt cp (highHalf nameAndType.value) [1] = some signature ∧
        name.value = reference.name ∧ signature.value = reference.signature := by
  have found : constantAt cp index [9, 10, 11] = some (pairConstant tag classIndex nameAndTypeIndex) :=
    constantAt_eq_some_iff.2 ⟨stored, isReference⟩
  have high : highHalf (pairConstant tag classIndex nameAndTypeIndex).value =
      nameAndTypeIndex.toNat := highHalf_construct _ _
  have low : lowHalf (pairConstant tag classIndex nameAndTypeIndex).value = classIndex.toNat :=
    lowHalf_construct _ _
  simp only [methodReference, found, Option.bind_eq_bind, Option.bind_some, Option.bind_eq_some_iff,
    high, low]
  constructor
  · rintro ⟨nameAndType, isPair, klass, isKlass, name, isName, signature, isSignature, built⟩
    cases built
    exact ⟨nameAndType, name, signature, isPair, isKlass, isName, isSignature, rfl, rfl⟩
  · rintro ⟨nameAndType, name, signature, isPair, isKlass, isName, isSignature, sameName,
      sameSignature⟩
    refine ⟨nameAndType, isPair, reference.klass, isKlass, name, isName, signature, isSignature, ?_⟩
    rw [sameName, sameSignature]
    rfl

theorem exists_methodReference_iff
    (isReference : tag ∈ fieldOrMethodTags)
    (stored : cp[index]? = some (pairConstant tag classIndex nameAndTypeIndex)) :
    (∃ reference, methodReference cp index = some reference) ↔
      IsWellFormed cp classIndex nameAndTypeIndex := by
  constructor
  · rintro ⟨reference, resolved⟩
    obtain ⟨nameAndType, name, signature, isPair, isKlass, isName, isSignature, _⟩ :=
      (methodReference_eq_some_iff isReference stored).mp resolved
    refine ⟨Option.isSome_of_eq_some isKlass, nameAndType, isPair, ?_, ?_⟩
    · exact Option.isSome_of_eq_some isName
    · exact Option.isSome_of_eq_some isSignature
  · rintro ⟨hasKlass, nameAndType, isPair, hasName, hasSignature⟩
    obtain ⟨klass, isKlass⟩ := Option.isSome_iff_exists.mp hasKlass
    obtain ⟨name, isName⟩ := Option.isSome_iff_exists.mp hasName
    obtain ⟨signature, isSignature⟩ := Option.isSome_iff_exists.mp hasSignature
    refine ⟨⟨klass, name.value, signature.value⟩, ?_⟩
    apply (methodReference_eq_some_iff isReference stored).mpr
    exact ⟨nameAndType, name, signature, isPair, isKlass, isName, isSignature, rfl, rfl⟩

/-- The signed half only finds indices below 32768. -/
theorem nameAndTypeRefIndexAt_eq_some_iff
    (isReference : tag ∈ fieldOrMethodTags)
    (stored : cp[index]? = some (pairConstant tag classIndex nameAndTypeIndex))
    (fits : cp.length < 65536)
    {found : Nat} :
    nameAndTypeRefIndexAt cp index = some found ↔
      found = nameAndTypeIndex.toNat ∧ nameAndTypeIndex.toNat < 32768 ∧
        (constantAt cp nameAndTypeIndex.toNat [12]).isSome := by
  have here : constantAt cp index fieldOrMethodTags =
      some (pairConstant tag classIndex nameAndTypeIndex) :=
    constantAt_eq_some_iff.2 ⟨stored, isReference⟩
  have half : highHalf (pairConstant tag classIndex nameAndTypeIndex).value =
      nameAndTypeIndex.toNat := highHalf_construct _ _
  simp only [nameAndTypeRefIndexAt, here, Option.bind_eq_bind, Option.bind_some,
    extractHighJshortFromJint_signExtend, half]
  by_cases low : nameAndTypeIndex.toNat < 32768
  · rw [if_pos low]
    simp only [Option.bind_eq_some_iff, Option.isSome_iff_exists, low, true_and]
    constructor
    · rintro ⟨nameAndType, isPair, result⟩
      cases result
      exact ⟨rfl, nameAndType, isPair⟩
    · rintro ⟨isIndex, nameAndType, isPair⟩
      exact ⟨nameAndType, isPair, by rw [isIndex]; rfl⟩
  · have beyond : cp.length ≤ nameAndTypeIndex.toNat + 0xffff0000 := by omega
    rw [if_neg low, constantAt_beyond beyond]
    simp [low]

/-- The accessors find what the resolver finds, as long as the index is below 32768. -/
theorem accessedReference_eq_some_iff
    (isReference : tag ∈ fieldOrMethodTags)
    (stored : cp[index]? = some (pairConstant tag classIndex nameAndTypeIndex))
    (fits : cp.length < 65536)
    {reference : MethodReference} :
    accessedReference cp index = some reference ↔
      nameAndTypeIndex.toNat < 32768 ∧ methodReference cp index = some reference := by
  have low : lowHalf (pairConstant tag classIndex nameAndTypeIndex).value = classIndex.toNat :=
    lowHalf_construct _ _
  rw [methodReference_eq_some_iff isReference stored]
  simp only [accessedReference, klassRefIndexAt, stored, nameRefIndexAt, signatureRefIndexAt,
    Option.bind_eq_bind, Option.bind_some, Option.bind_eq_some_iff, low,
    nameAndTypeRefIndexAt_eq_some_iff isReference stored fits]
  constructor
  · rintro ⟨_, ⟨_, _, sameClass⟩, _, ⟨isIndex, small, _⟩, _, ⟨nameAndType, isPair, name, isName,
      sameName⟩, _, ⟨nameAndType', isPair', signature, isSignature, sameSignature⟩, klass, isKlass,
      name', isName', signature', isSignature', built⟩
    cases sameClass
    cases isIndex
    cases sameName
    cases sameSignature
    cases built
    rw [isPair] at isPair'
    cases isPair'
    rw [(constantAt_eq_some_iff.1 isName).1] at isName'
    rw [(constantAt_eq_some_iff.1 isSignature).1] at isSignature'
    cases isName'
    cases isSignature'
    exact ⟨small, nameAndType, name, signature, isPair, isKlass, isName, isSignature, rfl, rfl⟩
  · rintro ⟨small, nameAndType, name, signature, isPair, isKlass, isName, isSignature, sameName,
      sameSignature⟩
    obtain ⟨isHere, isTag⟩ := constantAt_eq_some_iff.1 isKlass
    have isChecked : constantAt cp classIndex.toNat checkedKlassTags = some reference.klass :=
      constantAt_eq_some_iff.2 ⟨isHere, List.mem_cons_of_mem _ isTag⟩
    refine ⟨_, ⟨_, isChecked, rfl⟩, _, ⟨rfl, small, Option.isSome_of_eq_some isPair⟩, _,
      ⟨nameAndType, isPair, name, isName, rfl⟩, _, ⟨nameAndType, isPair, signature, isSignature, rfl⟩,
      reference.klass, isKlass, name, (constantAt_eq_some_iff.1 isName).1, signature,
      (constantAt_eq_some_iff.1 isSignature).1, ?_⟩
    rw [sameName, sameSignature]
    rfl

/-- The class file parser goes by the same indices. -/
theorem checkedIndices_of_methodReference
    (isReference : tag ∈ fieldOrMethodTags)
    (stored : cp[index]? = some (pairConstant tag classIndex nameAndTypeIndex))
    (fits : cp.length < 65536)
    (fixedUp : List.Forall₂ FixedUp parsed cp)
    (small : nameAndTypeIndex.toNat < 32768)
    {reference : MethodReference}
    (resolved : methodReference cp index = some reference) :
    ∃ indices, checkedIndices parsed index = some indices ∧
      cp[indices.klass]? = some reference.klass ∧
      cp[indices.name]?.map Constant.value = some reference.name ∧
      cp[indices.signature]?.map Constant.value = some reference.signature := by
  obtain ⟨nameAndType, name, signature, isPair, isKlass, isName, isSignature, sameName,
    sameSignature⟩ := (methodReference_eq_some_iff isReference stored).mp resolved
  obtain ⟨pairHere, pairTag⟩ := constantAt_eq_some_iff.1 isPair
  obtain ⟨klassHere, klassTag⟩ := constantAt_eq_some_iff.1 isKlass
  obtain ⟨nameHere, nameTag⟩ := constantAt_eq_some_iff.1 isName
  obtain ⟨signatureHere, signatureTag⟩ := constantAt_eq_some_iff.1 isSignature
  -- the constants as the second pass has them
  obtain ⟨before, storedBefore, isBefore⟩ := FixedUp.getElem? fixedUp stored
  obtain ⟨pairBefore, pairFound, isPairBefore⟩ := FixedUp.getElem? fixedUp pairHere
  obtain ⟨klassBefore, klassFound, isKlassBefore⟩ := FixedUp.getElem? fixedUp klassHere
  obtain ⟨nameBefore, nameFound, isNameBefore⟩ := FixedUp.getElem? fixedUp nameHere
  obtain ⟨signatureBefore, signatureFound, isSignatureBefore⟩ :=
    FixedUp.getElem? fixedUp signatureHere
  have tagFour : tag ∈ [9, 10, 11, 12] :=
    List.mem_append_left [12] isReference
  rw [isBefore.pair tagFour] at storedBefore
  rw [isPairBefore.pair (List.mem_append_right [9, 10, 11] pairTag)] at pairFound
  have lengths : parsed.length = cp.length := fixedUp.length_eq
  have low : lowHalf (pairConstant tag classIndex nameAndTypeIndex).value = classIndex.toNat :=
    lowHalf_construct _ _
  have klassIndex : klassRefIndexAt parsed index = some classIndex.toNat := by
    have isChecked : constantAt parsed classIndex.toNat checkedKlassTags = some klassBefore :=
      constantAt_eq_some_iff.2 ⟨klassFound, isKlassBefore.klass_tag klassTag⟩
    simp [klassRefIndexAt, storedBefore, low, isChecked]
  have pairAt : constantAt parsed nameAndTypeIndex.toNat [12] = some nameAndType :=
    constantAt_eq_some_iff.2 ⟨pairFound, pairTag⟩
  have pairIndex : nameAndTypeRefIndexAt parsed index = some nameAndTypeIndex.toNat :=
    (nameAndTypeRefIndexAt_eq_some_iff isReference storedBefore (by omega)).mpr
      ⟨rfl, small, Option.isSome_of_eq_some pairAt⟩
  have nameIndex : nameRefIndexAt parsed nameAndTypeIndex.toNat =
      some (lowHalf nameAndType.value) := by
    have nameAt : constantAt parsed (lowHalf nameAndType.value) [1] = some nameBefore :=
      constantAt_eq_some_iff.2 ⟨nameFound, isNameBefore.utf8_tag nameTag⟩
    simp [nameRefIndexAt, pairAt, nameAt]
  have signatureIndex : signatureRefIndexAt parsed nameAndTypeIndex.toNat =
      some (highHalf nameAndType.value) := by
    have signatureAt : constantAt parsed (highHalf nameAndType.value) [1] = some signatureBefore :=
      constantAt_eq_some_iff.2 ⟨signatureFound, isSignatureBefore.utf8_tag signatureTag⟩
    simp [signatureRefIndexAt, pairAt, signatureAt]
  refine ⟨⟨classIndex.toNat, nameAndTypeIndex.toNat, lowHalf nameAndType.value,
    highHalf nameAndType.value⟩, ?_, klassHere, ?_, ?_⟩
  · simp [checkedIndices, klassIndex, pairIndex, nameIndex, signatureIndex]
  · rw [nameHere, Option.map_some, sameName]
  · rw [signatureHere, Option.map_some, sameSignature]

/-- The three agree on a reference unless it is well formed and names its name and type by an index
from 32768 on. -/
theorem indicesAgree_iff
    (isReference : tag ∈ fieldOrMethodTags)
    (stored : cp[index]? = some (pairConstant tag classIndex nameAndTypeIndex))
    (fits : cp.length < 65536)
    (fixedUp : List.Forall₂ FixedUp parsed cp) :
    IndicesAgree parsed cp index ↔
      (IsWellFormed cp classIndex nameAndTypeIndex → nameAndTypeIndex.toNat < 32768) := by
  have accessed : ∀ reference, accessedReference cp index = some reference ↔
      nameAndTypeIndex.toNat < 32768 ∧ methodReference cp index = some reference :=
    fun reference => accessedReference_eq_some_iff isReference stored fits
  rw [← exists_methodReference_iff isReference stored]
  constructor
  · rintro agree ⟨reference, resolved⟩
    have found : accessedReference cp index = some reference := by
      rw [agree.accessed, resolved]
    exact ((accessed reference).mp found).1
  · intro small
    constructor
    · apply Option.ext
      intro reference
      rw [accessed]
      exact ⟨fun found => found.2, fun resolved => ⟨small ⟨reference, resolved⟩, resolved⟩⟩
    · intro reference resolved
      exact checkedIndices_of_methodReference isReference stored fits fixedUp
        (small ⟨reference, resolved⟩) resolved

/-- A method reference, its class, a name and a signature, and the name and type at some index. -/
def oneMethodPool (nameAndTypeIndex : Nat) : ConstantPool :=
  [invalidConstant, pairConstant 10 2 (BitVec.ofNat 16 nameAndTypeIndex), ⟨13, 100⟩, ⟨1, 200⟩,
      ⟨1, 300⟩] ++
    (List.replicate (nameAndTypeIndex - 5) invalidConstant ++ [pairConstant 12 3 4])

theorem oneMethodPool_length
    (nameAndTypeIndex : Nat)
    (behind : 5 ≤ nameAndTypeIndex) :
    (oneMethodPool nameAndTypeIndex).length = nameAndTypeIndex + 1 := by
  simp [oneMethodPool]
  omega

theorem oneMethodPool_last
    (nameAndTypeIndex : Nat)
    (behind : 5 ≤ nameAndTypeIndex) :
    (oneMethodPool nameAndTypeIndex)[nameAndTypeIndex]? = some (pairConstant 12 3 4) := by
  have isLast := oneMethodPool_length nameAndTypeIndex behind
  have last : (oneMethodPool nameAndTypeIndex).getLast? = some (pairConstant 12 3 4) := by
    rw [oneMethodPool, ← List.append_assoc, List.getLast?_concat]
  rw [List.getLast?_eq_getElem?, isLast, Nat.add_sub_cancel] at last
  exact last

theorem indicesAgree_oneMethodPool : IndicesAgree (oneMethodPool 5) (oneMethodPool 5) 1 := by
  have isReference : 10 ∈ fieldOrMethodTags := by decide
  have stored : (oneMethodPool 5)[1]? = some (pairConstant 10 2 5) := rfl
  have fixedUp : List.Forall₂ FixedUp (oneMethodPool 5) (oneMethodPool 5) :=
    List.forall₂_same.mpr fun constant _ => .refl constant
  exact (indicesAgree_iff isReference stored (by decide) fixedUp).mpr fun _ => by decide

/-- The name and type stands at the last index but the accessors do not find it. -/
theorem not_indicesAgree_oneMethodPool :
    ¬ IndicesAgree (oneMethodPool 32768) (oneMethodPool 32768) 1 := by
  intro agree
  have isReference : 10 ∈ fieldOrMethodTags := by decide
  have stored : (oneMethodPool 32768)[1]? = some (pairConstant 10 2 32768) := rfl
  have fits : (oneMethodPool 32768).length < 65536 := by
    rw [oneMethodPool_length 32768 (by decide)]
    decide
  have isPair := oneMethodPool_last 32768 (by decide)
  have resolved : methodReference (oneMethodPool 32768) 1 = some ⟨⟨13, 100⟩, 200, 300⟩ := by
    apply (methodReference_eq_some_iff isReference stored).mpr
    refine ⟨pairConstant 12 3 4, ⟨1, 200⟩, ⟨1, 300⟩, ?_, rfl, ?_, ?_, rfl, rfl⟩
    · exact constantAt_eq_some_iff.2 ⟨isPair, by decide⟩
    · rw [pairConstant, lowHalf_construct]
      rfl
    · rw [pairConstant, highHalf_construct]
      rfl
  have found : accessedReference (oneMethodPool 32768) 1 = some ⟨⟨13, 100⟩, 200, 300⟩ := by
    rw [agree.accessed, resolved]
  have small := ((accessedReference_eq_some_iff isReference stored fits).mp found).1
  revert small
  decide

end Reference

end PicoJvm.PoolReferences
