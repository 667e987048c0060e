import PicoJvm.Lib.Fallible
import PicoJvm.Lib.Pairing
import PicoJvm.Verifier.Types

/-!
# The stack maps of a class file

`ClassFileParser::parse_stackmaps`. The class file gives one entry for a `long`
or `double`; the parser writes both halves.
-/

namespace PicoJvm.Verifier

open PicoJvm.Lib.Fallible
open PicoJvm.Lib.Pairing

/-! ## The parser -/

/-- The `ErrorMsgTag`s of the parser. -/
inductive ParseError
  | truncatedClassFile
  | badStackmapSize
  | badStackmapType
  | badConstantpoolIndex
  deriving DecidableEq, Repr

abbrev Parse := Except ParseError

/-- `get_u1`. -/
def getU1 : List UInt8 → Parse (Nat × List UInt8)
  | byte :: bytes => .ok (byte.toNat, bytes)
  | [] => .error .truncatedClassFile

/-- `get_u2`. -/
def getU2 : List UInt8 → Parse (Nat × List UInt8)
  | high :: low :: bytes => .ok (high.toNat * 256 + low.toNat, bytes)
  | _ => .error .truncatedClassFile

/-- The second half that belongs to a tag. -/
def Tag.second : Tag → Option Tag
  | .long => some .long2
  | .double => some .double2
  | _ => none

/-- The tags below `ITEM_Object`, by number. -/
def tagOfNumber : Nat → Tag
  | 0 => .bogus
  | 1 => .integer
  | 2 => .float
  | 3 => .double
  | 4 => .long
  | 5 => .null
  | _ => .initObject

/-- What is stored for a tag without a class: its second half comes along, if there is
room. -/
def storeTag (maxSize place : Nat) (tag : Tag) : Parse (List Slot) :=
  match tag.second with
  | none => .ok [.of tag]
  | some second =>
      if place + 1 ≥ maxSize then
        .error .badStackmapSize
      else
        .ok [.of tag, .of second]

/-- The class of an object, which must be an entry that is not resolved yet. -/
def stackmapClass (constants : List Constant) (classIndex : Nat) : Parse ClassName :=
  if classIndex = 0 then
    .error .badConstantpoolIndex
  else
    match constants[classIndex]? with
    | some (.klass name) => .ok name
    | _ => .error .badConstantpoolIndex

/-- One entry, for the local or stack position `place`. -/
def parseType (constants : List Constant) (codeLength maxSize place stackType : Nat)
    (bytes : List UInt8) : Parse (List Slot × List UInt8) :=
  if place ≥ maxSize then
    .error .badStackmapSize
  else if stackType = 8 then do
    let (newInstr, bytes) ← getU2 bytes
    if newInstr ≥ codeLength then
      .error .badStackmapType
    else
      .ok ([.of (.newObject newInstr)], bytes)
  else if stackType < 7 then do
    let slots ← storeTag maxSize place (tagOfNumber stackType)
    .ok (slots, bytes)
  else if stackType = 7 then do
    let (classIndex, bytes) ← getU2 bytes
    let name ← stackmapClass constants classIndex
    .ok ([.object name], bytes)
  else
    .error .badStackmapType

/-- The entries that are left, from a position on. -/
def parseTypes (constants : List Constant) (codeLength maxSize : Nat) :
    Nat → Nat → List UInt8 → Parse (List Slot × List UInt8)
  | 0, _, bytes => .ok ([], bytes)
  | left + 1, place, bytes => do
      let (stackType, bytes) ← getU1 bytes
      let (slots, bytes) ← parseType constants codeLength maxSize place stackType bytes
      let (rest, bytes) ← parseTypes constants codeLength maxSize left
        (place + slots.length) bytes
      .ok (slots ++ rest, bytes)

/-- One stack map. -/
def parseStackmap (constants : List Constant) (maxStack frameSize codeLength : Nat)
    (bytes : List UInt8) : Parse (StackMap × List UInt8) := do
  let (bci, bytes) ← getU2 bytes
  let (localsSize, bytes) ← getU2 bytes
  let (locals, bytes) ← parseTypes constants codeLength frameSize localsSize 0 bytes
  let (stackSize, bytes) ← getU2 bytes
  let (stack, bytes) ← parseTypes constants codeLength maxStack stackSize 0 bytes
  .ok (⟨bci, locals, stack⟩, bytes)

/-- `parse_stackmaps`. A method without the attribute has no stack maps. -/
def parseStackmaps (constants : List Constant) (maxStack frameSize codeLength : Nat) :
    Nat → List UInt8 → Parse (List StackMap × List UInt8)
  | 0, bytes => .ok ([], bytes)
  | left + 1, bytes => do
      let (map, bytes) ← parseStackmap constants maxStack frameSize codeLength bytes
      let (rest, bytes) ← parseStackmaps constants maxStack frameSize codeLength left bytes
      .ok (map :: rest, bytes)

/-- The stack maps of the method are what the parser made of some bytes. -/
def Method.IsParsed (method : Method) : Prop :=
  ∃ numStackmaps bytes rest,
    parseStackmaps method.constants method.maxStack method.maxLocals method.code.length
      numStackmaps bytes = .ok (method.stackmaps, rest)

/-! ## Both halves are there -/

/-- The two words of a `long`, and of a `double`. -/
def tagHalves : Halves Tag where
  second := Tag.second
  injective := by
    intro first other half isSecond isSecondToo
    cases first <;> cases isSecond <;> cases other <;> first | rfl | cases isSecondToo
  disjoint := by
    intro first half isSecond
    cases first <;> cases isSecond <;> rfl

theorem isSecond_iff
    {tag : Tag} :
    tagHalves.IsSecond tag ↔ tag = .long2 ∨ tag = .double2 := by
  constructor
  · rintro ⟨first, isSecond⟩
    cases first <;> cases isSecond
    · exact .inr rfl
    · exact .inl rfl
  · rintro (rfl | rfl)
    · exact ⟨.long, rfl⟩
    · exact ⟨.double, rfl⟩

theorem isSingle_iff
    {tag : Tag} :
    tagHalves.IsSingle tag ↔
      tag ≠ .long ∧ tag ≠ .long2 ∧ tag ≠ .double ∧ tag ≠ .double2 := by
  rw [Halves.IsSingle, isSecond_iff]
  cases tag <;> simp [tagHalves, Tag.second]

theorem isSingle_of_isReference
    {tag : Tag}
    (isReference : tag.isReference) :
    tagHalves.IsSingle tag := by
  rw [isSingle_iff]
  cases tag <;> simp_all [Tag.isReference]

theorem paired_singleton
    {tag : Tag}
    (isSingle : tagHalves.IsSingle tag) :
    Paired tagHalves [tag] :=
  .single isSingle .nil

/-- The tags of slots, in the order of the list. -/
abbrev PairedSlots (slots : List Slot) : Prop :=
  Paired tagHalves (slots.map Slot.tag)

theorem storeTag_paired
    {maxSize place : Nat} {tag : Tag} {slots : List Slot}
    (notSecond : ¬ tagHalves.IsSecond tag)
    (stored : storeTag maxSize place tag = .ok slots) :
    PairedSlots slots := by
  unfold storeTag at stored
  split at stored
  · rename_i isLast
    cases stored
    exact paired_singleton ⟨isLast, notSecond⟩
  · rename_i second isSecond
    obtain ⟨_, ok⟩ := guarded_eq_ok_iff.mp stored
    cases ok
    exact .pair isSecond .nil

theorem tagOfNumber_not_isSecond (number : Nat) :
    ¬ tagHalves.IsSecond (tagOfNumber number) := by
  rw [isSecond_iff]
  unfold tagOfNumber
  split <;> simp

theorem parseType_paired
    {constants : List Constant} {codeLength maxSize place stackType : Nat}
    {bytes rest : List UInt8} {slots : List Slot}
    (parsed : parseType constants codeLength maxSize place stackType bytes =
      .ok (slots, rest)) :
    PairedSlots slots := by
  obtain ⟨_, parsed⟩ := guarded_eq_ok_iff.mp parsed
  split at parsed
  · obtain ⟨⟨newInstr, later⟩, _, parsed⟩ := bind_eq_ok_iff.mp parsed
    obtain ⟨_, ok⟩ := guarded_eq_ok_iff.mp parsed
    cases ok
    exact paired_singleton (isSingle_of_isReference rfl)
  · split at parsed
    · obtain ⟨stored, isStored, ok⟩ := bind_eq_ok_iff.mp parsed
      cases ok
      exact storeTag_paired (tagOfNumber_not_isSecond stackType) isStored
    · split at parsed
      · obtain ⟨⟨classIndex, later⟩, _, parsed⟩ := bind_eq_ok_iff.mp parsed
        obtain ⟨name, _, ok⟩ := bind_eq_ok_iff.mp parsed
        cases ok
        exact paired_singleton (isSingle_of_isReference rfl)
      · cases parsed

theorem parseTypes_paired
    {constants : List Constant} {codeLength maxSize left place : Nat}
    {bytes rest : List UInt8} {slots : List Slot}
    (parsed : parseTypes constants codeLength maxSize left place bytes = .ok (slots, rest)) :
    PairedSlots slots := by
  induction left generalizing place bytes slots with
  | zero =>
      cases parsed
      exact .nil
  | succ left inductionHypothesis =>
      obtain ⟨⟨stackType, bytes'⟩, _, parsed⟩ := bind_eq_ok_iff.mp parsed
      obtain ⟨⟨here, bytes''⟩, isHere, parsed⟩ := bind_eq_ok_iff.mp parsed
      obtain ⟨⟨further, bytes'''⟩, isFurther, ok⟩ := bind_eq_ok_iff.mp parsed
      cases ok
      have whole := (parseType_paired isHere).append (inductionHypothesis isFurther)
      rwa [← List.map_append] at whole

/-- The doubles of a stack map have both halves. -/
structure StackMap.DoublesWhole (map : StackMap) : Prop where
  locals : PairedSlots map.locals
  stack : PairedSlots map.stack

theorem parseStackmap_doublesWhole
    {constants : List Constant} {maxStack frameSize codeLength : Nat}
    {bytes rest : List UInt8} {map : StackMap}
    (parsed : parseStackmap constants maxStack frameSize codeLength bytes =
      .ok (map, rest)) :
    map.DoublesWhole := by
  obtain ⟨⟨bci, bytes1⟩, _, parsed⟩ := bind_eq_ok_iff.mp parsed
  obtain ⟨⟨localsSize, bytes2⟩, _, parsed⟩ := bind_eq_ok_iff.mp parsed
  obtain ⟨⟨locals, bytes3⟩, isLocals, parsed⟩ := bind_eq_ok_iff.mp parsed
  obtain ⟨⟨stackSize, bytes4⟩, _, parsed⟩ := bind_eq_ok_iff.mp parsed
  obtain ⟨⟨stack, bytes5⟩, isStack, ok⟩ := bind_eq_ok_iff.mp parsed
  cases ok
  exact ⟨parseTypes_paired isLocals, parseTypes_paired isStack⟩

theorem parseStackmaps_doublesWhole
    {constants : List Constant} {maxStack frameSize codeLength numStackmaps : Nat}
    {bytes rest : List UInt8} {maps : List StackMap}
    (parsed : parseStackmaps constants maxStack frameSize codeLength numStackmaps bytes =
      .ok (maps, rest)) :
    ∀ map ∈ maps, map.DoublesWhole := by
  induction numStackmaps generalizing bytes maps with
  | zero =>
      cases parsed
      intro map member
      cases member
  | succ left inductionHypothesis =>
      obtain ⟨⟨first, bytes'⟩, isFirst, parsed⟩ := bind_eq_ok_iff.mp parsed
      obtain ⟨⟨further, bytes''⟩, isFurther, ok⟩ := bind_eq_ok_iff.mp parsed
      cases ok
      intro map member
      rcases List.mem_cons.mp member with rfl | later
      · exact parseStackmap_doublesWhole isFirst
      · exact inductionHypothesis isFurther map later

theorem Method.IsParsed.doublesWhole
    {method : Method}
    (isParsed : method.IsParsed) :
    ∀ map ∈ method.stackmaps, map.DoublesWhole := by
  obtain ⟨numStackmaps, bytes, rest, parsed⟩ := isParsed
  exact parseStackmaps_doublesWhole parsed

end PicoJvm.Verifier
