import PicoJvm.Verifier.StackmapArrays

/-!
# What a `StackMap` attribute may be

The attribute as the class file writes it, and which stack maps that denotes. The parser
accepts exactly the attributes that denote some.
-/

namespace PicoJvm.Verifier

open PicoJvm.Lib.Fallible

/-! ## The attribute in the class file -/

/-- An entry for a local or a stack position. -/
inductive StackType
  | item (number : Fin 7)
  | object (classIndex : Fin 65536)
  | newObject (bci : Fin 65536)
  deriving DecidableEq, Repr

/-- A stack map, whose sizes fit into two bytes. -/
structure FileMap where
  offset : Fin 65536
  locals : List StackType
  stack : List StackType
  locals_lt : locals.length < 65536
  stack_lt : stack.length < 65536

def u2 (value : Nat) : List UInt8 :=
  [UInt8.ofNat (value / 256), UInt8.ofNat (value % 256)]

def StackType.bytes : StackType → List UInt8
  | .item number => [UInt8.ofNat number]
  | .object classIndex => 7 :: u2 classIndex
  | .newObject bci => 8 :: u2 bci

/-- Entries behind their number. -/
def partBytes (types : List StackType) : List UInt8 :=
  u2 types.length ++ types.flatMap StackType.bytes

def FileMap.bytes (map : FileMap) : List UInt8 :=
  u2 map.offset ++ partBytes map.locals ++ partBytes map.stack

def attributeBytes (maps : List FileMap) : List UInt8 :=
  u2 maps.length ++ maps.flatMap FileMap.bytes

/-! ## What it denotes -/

section Denotes

variable (constants : List Constant) (codeLength : Nat)

/-- The slots of an entry. A `long` or `double` has two, a class must be in the constant pool
and a new object must come from an instruction of the method. -/
inductive StackType.Denotes : StackType → List Slot → Prop
  | single {number : Fin 7}
      (isSingle : (tagOfNumber number).second = none) :
      Denotes (.item number) [.of (tagOfNumber number)]
  | double {number : Fin 7} {second : Tag}
      (isDouble : (tagOfNumber number).second = some second) :
      Denotes (.item number) [.of (tagOfNumber number), .of second]
  | object {classIndex : Fin 65536} {name : ClassName}
      (found : stackmapClass constants classIndex = .ok name) :
      Denotes (.object classIndex) [.object name]
  | newObject {bci : Fin 65536}
      (inside : bci < codeLength) :
      Denotes (.newObject bci) [.of (.newObject bci)]

/-- The slots of entries behind each other. -/
inductive DenoteAll : List StackType → List Slot → Prop
  | nil : DenoteAll [] []
  | cons {type : StackType} {types : List StackType} {slots rest : List Slot}
      (first : type.Denotes constants codeLength slots)
      (further : DenoteAll types rest) :
      DenoteAll (type :: types) (slots ++ rest)

/-- The stack map of a stack map in the class file. -/
structure FileMap.Denotes (maxStack maxLocals : Nat) (file : FileMap) (map : StackMap) :
    Prop where
  bci : map.bci = file.offset
  locals : DenoteAll constants codeLength file.locals map.locals
  localsFit : map.locals.length ≤ maxLocals
  stack : DenoteAll constants codeLength file.stack map.stack
  stackFit : map.stack.length ≤ maxStack

end Denotes

/-! ## The parser of the class file -/

theorem lift_eq_ok_iff
    {α : Type} {parse : Parse α} {value : α} :
    parse.lift = .ok value ↔ parse = .ok value := by
  cases parse <;> simp [Parse.lift, Except.mapError]

theorem into_eq_ok_iff
    {α β : Type} {parse : Parse α} {next : α → β} {value : β} :
    parse.into next = .ok value ↔ ∃ found, parse = .ok found ∧ next found = value := by
  cases parse with
  | error error => simp [Parse.into, Parse.lift, Except.mapError, Except.map]
  | ok found =>
      constructor
      · intro same
        exact ⟨found, rfl, Except.ok.inj same⟩
      · rintro ⟨found, same, rfl⟩
        cases same
        rfl

theorem getU2_iff
    {bytes rest : List UInt8} {value : Nat} :
    getU2 bytes = .ok (value, rest) ↔ value < 65536 ∧ bytes = u2 value ++ rest := by
  constructor
  · intro read
    match bytes with
    | high :: low :: bytes =>
        have highBound := high.toNat_lt
        have lowBound := low.toNat_lt
        cases read
        refine ⟨by omega, ?_⟩
        have div : (high.toNat * 256 + low.toNat) / 256 = high.toNat := by omega
        have mod : (high.toNat * 256 + low.toNat) % 256 = low.toNat := by omega
        simp [u2, div, mod]
    | [_] => cases read
    | [] => cases read
  · rintro ⟨bound, rfl⟩
    have high : value / 256 < 256 := by omega
    have low : value % 256 < 256 := by omega
    simp only [u2, List.cons_append, List.nil_append, getU2, UInt8.toNat_ofNat',
      Nat.mod_eq_of_lt high, Nat.mod_eq_of_lt low]
    congr 2
    omega

section Parse

variable {constants : List Constant} {codeLength maxSize : Nat}

/-- What is stored for a tag is what its entry denotes, if there is room. -/
theorem storeTag_denotes
    {place : Nat} {number : Fin 7} {slots : List Slot}
    (stored : storeTag maxSize place (tagOfNumber number) = .ok slots) :
    (StackType.item number).Denotes constants codeLength slots := by
  unfold storeTag at stored
  split at stored
  · rename_i isSingle
    cases stored
    exact .single isSingle
  · rename_i second isDouble
    obtain ⟨_, ok⟩ := guarded_eq_ok_iff.mp stored
    cases ok
    exact .double isDouble

theorem parseEntry_iff
    {place : Nat} {bytes rest : List UInt8} {slots : List Slot} :
    parseEntry constants codeLength maxSize place bytes = .ok (slots, rest) ↔
      ∃ type : StackType, bytes = type.bytes ++ rest ∧
        type.Denotes constants codeLength slots ∧ place + slots.length ≤ maxSize := by
  constructor
  · intro parsed
    have fits := (parseEntry_length parsed).2
    cases bytes with
    | nil => cases parsed
    | cons tag bytes =>
        obtain ⟨_, checked⟩ := guarded_eq_ok_iff.mp parsed
        clear parsed
        split at checked
        · rename_i isNewObject
          obtain rfl : tag = 8 := UInt8.toNat_inj.mp isNewObject
          obtain ⟨⟨newInstr, bytes'⟩, isBci, checked⟩ := bind_eq_ok_iff.mp checked
          obtain ⟨small, written⟩ := getU2_iff.1 isBci
          obtain ⟨inside, ok⟩ := guarded_eq_ok_iff.mp checked
          cases ok
          exact ⟨.newObject ⟨newInstr, small⟩, by rw [written]; rfl,
            .newObject (Nat.not_le.mp inside), fits⟩
        · split at checked
          · rename_i below
            obtain ⟨stored, isStored, ok⟩ := bind_eq_ok_iff.mp checked
            cases ok
            refine ⟨.item ⟨tag.toNat, below⟩, ?_, ?_, fits⟩
            · simp [StackType.bytes]
            · exact @storeTag_denotes _ _ _ _ ⟨tag.toNat, below⟩ _ isStored
          · split at checked
            · rename_i isObject
              obtain rfl : tag = 7 := UInt8.toNat_inj.mp isObject
              obtain ⟨⟨classIndex, bytes'⟩, isIndex, checked⟩ := bind_eq_ok_iff.mp checked
              obtain ⟨small, written⟩ := getU2_iff.1 isIndex
              obtain ⟨name, found, ok⟩ := bind_eq_ok_iff.mp checked
              cases ok
              exact ⟨.object ⟨classIndex, small⟩, by rw [written]; rfl, .object found, fits⟩
            · cases checked
  · rintro ⟨type, rfl, denotes, fits⟩
    unfold parseEntry
    cases denotes with
    | @single number isSingle =>
        have room : ¬ place ≥ maxSize := Nat.not_le.mpr fits
        have isItem := number.isLt
        have byte : number.val % 256 = number.val := Nat.mod_eq_of_lt (by omega)
        have notNewObject : number.val ≠ 8 := by omega
        simp [getU1, StackType.bytes, parseType, room, byte, notNewObject, storeTag, isSingle]
    | @double number second isDouble =>
        have room : ¬ place ≥ maxSize := Nat.not_le.mpr (Nat.lt_of_succ_lt fits)
        have isItem := number.isLt
        have byte : number.val % 256 = number.val := Nat.mod_eq_of_lt (by omega)
        have notNewObject : number.val ≠ 8 := by omega
        have second : ¬ place + 1 ≥ maxSize := Nat.not_le.mpr fits
        simp [getU1, StackType.bytes, parseType, room, byte, notNewObject, storeTag, isDouble, second]
    | @object classIndex name found =>
        have read : getU2 (u2 classIndex ++ rest) = .ok (classIndex.val, rest) :=
          getU2_iff.2 ⟨classIndex.isLt, rfl⟩
        have room : ¬ place ≥ maxSize := Nat.not_le.mpr fits
        simp [getU1, StackType.bytes, parseType, room, read, found]
    | @newObject bci inside =>
        have read : getU2 (u2 bci ++ rest) = .ok (bci.val, rest) :=
          getU2_iff.2 ⟨bci.isLt, rfl⟩
        have room : ¬ place ≥ maxSize := Nat.not_le.mpr fits
        simp [getU1, StackType.bytes, parseType, room, read, inside]

theorem parseTypes_iff
    {left place : Nat} {bytes rest : List UInt8} {slots : List Slot}
    (inside : place ≤ maxSize) :
    parseTypes constants codeLength maxSize left place bytes = .ok (slots, rest) ↔
      ∃ types : List StackType, types.length = left ∧
        bytes = types.flatMap StackType.bytes ++ rest ∧
        DenoteAll constants codeLength types slots ∧ place + slots.length ≤ maxSize := by
  induction left generalizing place bytes slots with
  | zero =>
      constructor
      · intro parsed
        cases parsed
        exact ⟨[], rfl, rfl, .nil, inside⟩
      · rintro ⟨types, noTypes, rfl, denote, _⟩
        obtain rfl := List.eq_nil_of_length_eq_zero noTypes
        cases denote
        rfl
  | succ left induction =>
      rw [parseTypes_succ, bind_eq_ok_iff]
      constructor
      · rintro ⟨⟨here, bytes'⟩, isHere, parsed⟩
        obtain ⟨⟨further, bytes''⟩, isFurther, ok⟩ := bind_eq_ok_iff.mp parsed
        cases ok
        obtain ⟨type, rfl, denotes, fits⟩ := parseEntry_iff.1 isHere
        obtain ⟨types, length, rfl, denote, whole⟩ := (induction fits).mp isFurther
        refine ⟨type :: types, by rw [List.length_cons, length], ?_, .cons denotes denote, ?_⟩
        · rw [List.flatMap_cons, List.append_assoc]
        · rw [List.length_append, ← Nat.add_assoc]
          exact whole
      · rintro ⟨types, length, rfl, denote, whole⟩
        cases denote with
        | nil => cases length
        | @cons type types slots further denotes denote =>
            rw [List.length_append, ← Nat.add_assoc] at whole
            rw [List.flatMap_cons, List.append_assoc]
            have here := (@parseEntry_iff _ _ _ _ _ (types.flatMap StackType.bytes ++ rest) _).mpr
              ⟨type, rfl, denotes, Nat.le_trans (Nat.le_add_right _ _) whole⟩
            refine ⟨_, here, ?_⟩
            have later := (induction (Nat.le_trans (Nat.le_add_right _ _) whole)).mpr
              ⟨types, Nat.succ.inj length, rfl, denote, whole⟩
            dsimp only
            rw [later]
            rfl

theorem parsePart_iff
    {bytes rest : List UInt8} {slots : List Slot} :
    parsePart constants codeLength maxSize bytes = .ok (slots, rest) ↔
      ∃ types : List StackType, types.length < 65536 ∧ bytes = partBytes types ++ rest ∧
        DenoteAll constants codeLength types slots ∧ slots.length ≤ maxSize := by
  unfold parsePart partBytes
  rw [bind_eq_ok_iff]
  constructor
  · rintro ⟨⟨size, later⟩, isSize, parsed⟩
    obtain ⟨small, rfl⟩ := getU2_iff.1 isSize
    obtain ⟨types, rfl, rfl, denote, fits⟩ := (parseTypes_iff (Nat.zero_le _)).mp parsed
    rw [Nat.zero_add] at fits
    exact ⟨types, small, by rw [List.append_assoc], denote, fits⟩
  · rintro ⟨types, small, rfl, denote, fits⟩
    rw [List.append_assoc]
    refine ⟨_, getU2_iff.2 ⟨small, rfl⟩, (parseTypes_iff (Nat.zero_le _)).mpr ?_⟩
    exact ⟨types, rfl, rfl, denote, by rwa [Nat.zero_add]⟩

theorem parseStackmap_iff
    {maxStack maxLocals : Nat} {bytes rest : List UInt8} {map : StackMap} :
    parseStackmap constants maxStack maxLocals codeLength bytes = .ok (map, rest) ↔
      ∃ file : FileMap, bytes = file.bytes ++ rest ∧
        file.Denotes constants codeLength maxStack maxLocals map := by
  rw [parseStackmap_eq, bind_eq_ok_iff]
  constructor
  · rintro ⟨⟨bci, bytes1⟩, isBci, parsed⟩
    obtain ⟨⟨locals, bytes2⟩, isLocals, parsed⟩ := bind_eq_ok_iff.mp parsed
    obtain ⟨⟨stack, bytes3⟩, isStack, ok⟩ := bind_eq_ok_iff.mp parsed
    cases ok
    obtain ⟨bciSmall, bciBytes⟩ := getU2_iff.1 isBci
    obtain ⟨localTypes, localsSmall, localBytes, localsDenote, localsFit⟩ :=
      parsePart_iff.1 isLocals
    obtain ⟨stackTypes, stackSmall, stackBytes, stackDenote, stackFit⟩ := parsePart_iff.1 isStack
    refine ⟨⟨⟨bci, bciSmall⟩, localTypes, stackTypes, localsSmall, stackSmall⟩, ?_,
      ⟨rfl, localsDenote, localsFit, stackDenote, stackFit⟩⟩
    rw [bciBytes, localBytes, stackBytes]
    simp only [FileMap.bytes, List.append_assoc]
  · rintro ⟨file, rfl, denotes⟩
    have bci := getU2_iff.2 ⟨file.offset.isLt,
      (rfl : u2 file.offset ++ (partBytes file.locals ++ (partBytes file.stack ++ rest)) = _)⟩
    have locals := (@parsePart_iff _ _ _ _ (partBytes file.stack ++ rest) _).mpr
      ⟨file.locals, file.locals_lt, rfl, denotes.locals, denotes.localsFit⟩
    have stack := (@parsePart_iff _ _ _ _ rest _).mpr
      ⟨file.stack, file.stack_lt, rfl, denotes.stack, denotes.stackFit⟩
    refine ⟨_, by simp only [FileMap.bytes, List.append_assoc]; exact bci, ?_⟩
    dsimp only
    rw [locals, ok_bind]
    dsimp only
    rw [stack, ok_bind, ← denotes.bci]

theorem parseStackmaps_iff
    {maxStack maxLocals numStackmaps : Nat} {bytes rest : List UInt8} {maps : List StackMap} :
    parseStackmaps constants maxStack maxLocals codeLength numStackmaps bytes = .ok (maps, rest) ↔
      ∃ files : List FileMap, files.length = numStackmaps ∧
        bytes = files.flatMap FileMap.bytes ++ rest ∧
        List.Forall₂ (FileMap.Denotes constants codeLength maxStack maxLocals) files maps := by
  induction numStackmaps generalizing bytes maps with
  | zero =>
      constructor
      · intro parsed
        cases parsed
        exact ⟨[], rfl, rfl, .nil⟩
      · rintro ⟨files, noFiles, rfl, denote⟩
        obtain rfl := List.eq_nil_of_length_eq_zero noFiles
        cases denote
        rfl
  | succ left induction =>
      rw [parseStackmaps, bind_eq_ok_iff]
      constructor
      · rintro ⟨⟨map, bytes1⟩, isFirst, parsed⟩
        obtain ⟨⟨further, bytes2⟩, isFurther, ok⟩ := bind_eq_ok_iff.mp parsed
        cases ok
        obtain ⟨file, written, denotes⟩ := parseStackmap_iff.1 isFirst
        obtain ⟨files, length, furtherWritten, denote⟩ := induction.mp isFurther
        refine ⟨file :: files, by rw [List.length_cons, length], ?_, .cons denotes denote⟩
        rw [written, furtherWritten, List.flatMap_cons, List.append_assoc]
      · rintro ⟨files, length, rfl, denote⟩
        cases denote with
        | nil => cases length
        | @cons file map files maps denotes denote =>
            rw [List.flatMap_cons, List.append_assoc]
            have further := induction.mpr ⟨files, Nat.succ.inj length, rfl, denote⟩
            refine ⟨_, parseStackmap_iff.2 ⟨file, rfl, denotes⟩, ?_⟩
            dsimp only
            rw [further]
            rfl

/-- An attribute is accepted when it is the first one, has the length it says, and denotes
stack maps. -/
theorem parseStackmapAttribute_iff
    {maxStack maxLocals : Nat} {seen : Bool} {attributeLength : Nat} {bytes rest : List UInt8}
    {entries : List StackmapArrays} :
    parseStackmapAttribute constants maxStack maxLocals codeLength seen attributeLength bytes =
        .ok (entries, rest) ↔
      seen = false ∧ ∃ (files : List FileMap) (maps : List StackMap), files.length < 65536 ∧
        bytes = attributeBytes files ++ rest ∧ (attributeBytes files).length = attributeLength ∧
        List.Forall₂ (FileMap.Denotes constants codeLength maxStack maxLocals) files maps ∧
        entries = maps.map (·.arrays (maxStack + maxLocals + 4)) := by
  unfold parseStackmapAttribute
  constructor
  · intro accepted
    obtain ⟨first, parsed⟩ := guarded_eq_ok_iff.mp accepted
    obtain ⟨⟨numStackmaps, start⟩, isNumber, parsed⟩ := bind_eq_ok_iff.mp parsed
    obtain ⟨⟨stored, later⟩, isStored, parsed⟩ := bind_eq_ok_iff.mp parsed
    obtain ⟨sized, ok⟩ := guarded_eq_ok_iff.mp parsed
    cases ok
    obtain ⟨small, written⟩ := getU2_iff.1 (lift_eq_ok_iff.1 isNumber)
    rw [storeStackmaps_eq] at isStored
    obtain ⟨⟨maps, later⟩, isParsed, same⟩ := into_eq_ok_iff.1 isStored
    cases same
    obtain ⟨files, rfl, further, denote⟩ := parseStackmaps_iff.1 isParsed
    refine ⟨Bool.eq_false_iff.mpr first, files, maps, small, ?_, ?_, denote, rfl⟩
    · rw [written, further, attributeBytes, List.append_assoc]
    · have length := Decidable.not_not.mp sized
      rw [further, List.length_append] at length
      rw [attributeBytes, List.length_append]
      unfold u2
      dsimp only [List.length_cons, List.length_nil]
      omega
  · rintro ⟨rfl, files, maps, small, rfl, rfl, denote, rfl⟩
    have number := getU2_iff.2 ⟨small,
      (rfl : u2 files.length ++ (files.flatMap FileMap.bytes ++ rest) = _)⟩
    have parsed := parseStackmaps_iff.2 ⟨files, rfl, (rfl : _ ++ rest = _), denote⟩
    have stored : storeStackmaps constants maxStack maxLocals codeLength files.length
        (files.flatMap FileMap.bytes ++ rest) =
        .ok (maps.map (·.arrays (maxStack + maxLocals + 4)), rest) := by
      rw [storeStackmaps_eq]
      exact into_eq_ok_iff.2 ⟨_, parsed, rfl⟩
    rw [if_neg Bool.false_ne_true, attributeBytes, List.append_assoc, lift_eq_ok_iff.2 number,
      ok_bind]
    dsimp only
    rw [stored, ok_bind]
    dsimp only
    rw [if_neg]
    rw [Decidable.not_not, List.length_append, List.length_append]
    unfold u2
    dsimp only [List.length_cons, List.length_nil]
    omega

end Parse

/-! ## The attribute -/

/-- What the verifier may rely on in a stack map. -/
structure StackMap.Checked (maxStack maxLocals codeLength : Nat) (map : StackMap) : Prop where
  locals_le : map.locals.length ≤ maxLocals
  stack_le : map.stack.length ≤ maxStack
  doublesWhole : map.DoublesWhole
  newObject_lt : ∀ bci, .of (.newObject bci) ∈ map.locals ++ map.stack → bci < codeLength

theorem StackType.Denotes.paired
    {constants : List Constant} {codeLength : Nat} {type : StackType} {slots : List Slot}
    (denotes : type.Denotes constants codeLength slots) :
    PairedSlots slots := by
  cases denotes with
  | @single number isSingle =>
      exact paired_singleton ⟨isSingle, tagOfNumber_not_isSecond number⟩
  | double isDouble => exact .pair isDouble .nil
  | object _ => exact paired_singleton (isSingle_of_isReference rfl)
  | newObject _ => exact paired_singleton (isSingle_of_isReference rfl)

theorem DenoteAll.paired
    {constants : List Constant} {codeLength : Nat} {types : List StackType} {slots : List Slot}
    (denote : DenoteAll constants codeLength types slots) :
    PairedSlots slots := by
  induction denote with
  | nil => exact .nil
  | cons first _ further =>
      have whole := first.paired.append further
      rwa [← List.map_append] at whole

theorem tagOfNumber_ne_newObject
    {number : Nat} {bci : Nat} :
    tagOfNumber number ≠ .newObject bci := by
  unfold tagOfNumber
  split <;> nofun

theorem second_ne_newObject
    {tag : Tag} {bci : Nat} :
    tag.second ≠ some (.newObject bci) := by
  cases tag <;> nofun

theorem StackType.Denotes.newObject_lt
    {constants : List Constant} {codeLength : Nat} {type : StackType} {slots : List Slot}
    (denotes : type.Denotes constants codeLength slots)
    {bci : Nat}
    (member : .of (.newObject bci) ∈ slots) :
    bci < codeLength := by
  have sameTag : ∀ {tag : Tag}, Slot.of (.newObject bci) = .of tag → tag = .newObject bci :=
    fun same => (congrArg Slot.tag same).symm
  cases denotes with
  | single _ =>
      rw [List.mem_singleton] at member
      exact absurd (sameTag member) tagOfNumber_ne_newObject
  | @double number second isDouble =>
      rcases List.mem_cons.mp member with same | later
      · exact absurd (sameTag same) tagOfNumber_ne_newObject
      · rw [List.mem_singleton] at later
        rw [sameTag later] at isDouble
        exact absurd isDouble second_ne_newObject
  | object _ =>
      rw [List.mem_singleton] at member
      cases congrArg Slot.tag member
  | @newObject inFile inside =>
      rw [List.mem_singleton] at member
      cases congrArg Slot.tag member
      exact inside

theorem DenoteAll.newObject_lt
    {constants : List Constant} {codeLength : Nat} {types : List StackType} {slots : List Slot}
    (denote : DenoteAll constants codeLength types slots)
    {bci : Nat}
    (member : .of (.newObject bci) ∈ slots) :
    bci < codeLength := by
  induction denote with
  | nil => cases member
  | cons first _ further =>
      rcases List.mem_append.mp member with here | later
      · exact first.newObject_lt here
      · exact further later

theorem FileMap.Denotes.checked
    {constants : List Constant} {maxStack maxLocals codeLength : Nat} {file : FileMap}
    {map : StackMap}
    (denotes : file.Denotes constants codeLength maxStack maxLocals map) :
    map.Checked maxStack maxLocals codeLength where
  locals_le := denotes.localsFit
  stack_le := denotes.stackFit
  doublesWhole := ⟨denotes.locals.paired, denotes.stack.paired⟩
  newObject_lt := by
    intro bci member
    rcases List.mem_append.mp member with isLocal | isStack
    · exact denotes.locals.newObject_lt isLocal
    · exact denotes.stack.newObject_lt isStack

theorem all_checked
    {constants : List Constant} {maxStack maxLocals codeLength : Nat} {files : List FileMap}
    {maps : List StackMap}
    (denote : List.Forall₂ (FileMap.Denotes constants codeLength maxStack maxLocals) files maps) :
    ∀ map ∈ maps, map.Checked maxStack maxLocals codeLength := by
  induction denote with
  | nil =>
      intro map member
      cases member
  | cons denotes _ further =>
      intro map member
      rcases List.mem_cons.mp member with rfl | later
      · exact denotes.checked
      · exact further map later

theorem parseStackmapAttribute_inside
    (constants : List Constant)
    (maxStack maxLocals codeLength : Nat)
    (seen : Bool)
    (attributeLength : Nat)
    (bytes : List UInt8) :
    parseStackmapAttribute constants maxStack maxLocals codeLength seen attributeLength bytes ≠
      .error .outsideArray := by
  unfold parseStackmapAttribute
  split
  · intro outside
    cases outside
  · cases getU2 bytes with
    | error error =>
        intro outside
        cases outside
    | ok value =>
        obtain ⟨numStackmaps, start⟩ := value
        simp only [Parse.lift, Except.mapError, ok_bind, storeStackmaps_eq]
        cases parseStackmaps constants maxStack maxLocals codeLength numStackmaps start with
        | error error =>
            intro outside
            cases outside
        | ok value =>
            obtain ⟨maps, rest⟩ := value
            simp only [Parse.into, Parse.lift, Except.mapError, Except.map, ok_bind]
            split <;> (intro outside; cases outside)

/-- Nothing is written outside the arrays. What is accepted consists of checked stack maps, and
takes as many bytes as the attribute says; it is accepted exactly when it denotes stack maps
that fit. -/
theorem parseStackmapAttribute_checks
    (constants : List Constant)
    (maxStack maxLocals codeLength : Nat)
    (seen : Bool)
    (attributeLength : Nat)
    (bytes : List UInt8) :
    parseStackmapAttribute constants maxStack maxLocals codeLength seen attributeLength bytes ≠
        .error .outsideArray ∧
      ∀ entries rest,
        (parseStackmapAttribute constants maxStack maxLocals codeLength seen attributeLength bytes =
            .ok (entries, rest) →
          (∃ consumed, bytes = consumed ++ rest ∧ consumed.length = attributeLength) ∧
          ∃ maps : List StackMap, entries = maps.map (·.arrays (maxStack + maxLocals + 4)) ∧
            ∀ map ∈ maps, map.Checked maxStack maxLocals codeLength) ∧
        (parseStackmapAttribute constants maxStack maxLocals codeLength seen attributeLength bytes =
            .ok (entries, rest) ↔
          seen = false ∧ ∃ (files : List FileMap) (maps : List StackMap), files.length < 65536 ∧
            bytes = attributeBytes files ++ rest ∧
            (attributeBytes files).length = attributeLength ∧
            List.Forall₂ (FileMap.Denotes constants codeLength maxStack maxLocals) files maps ∧
            entries = maps.map (·.arrays (maxStack + maxLocals + 4))) := by
  refine ⟨parseStackmapAttribute_inside constants maxStack maxLocals codeLength seen
    attributeLength bytes, fun entries rest => ⟨?_, parseStackmapAttribute_iff⟩⟩
  intro accepted
  obtain ⟨_, files, maps, _, written, length, denote, rfl⟩ :=
    parseStackmapAttribute_iff.1 accepted
  exact ⟨⟨attributeBytes files, written, length⟩, maps, rfl, all_checked denote⟩

example :
    parseStackmapAttribute [.other, .klass javaLangString] 2 3 9 false 17
        [0, 1, 0, 5, 0, 2, 4, 7, 0, 1, 0, 1, 8, 0, 3, 99, 99] =
      .error .badStackmapAttributeSize := by
  decide

example :
    parseStackmapAttribute [.other, .klass javaLangString] 2 3 9 false 15
        [0, 1, 0, 5, 0, 2, 4, 7, 0, 1, 0, 1, 8, 0, 3, 99, 99] =
      .ok ([⟨[5, 3, 4, 9, 7, 1, 200704, 0, 0],
        [none, none, none, none, some javaLangString, none, none, none, none]⟩], [99, 99]) := by
  decide +kernel

end PicoJvm.Verifier
