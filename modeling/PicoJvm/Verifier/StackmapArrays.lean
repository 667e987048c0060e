import PicoJvm.Lib.Machine
import PicoJvm.Verifier.ParseStackmaps

/-!
# The arrays of a stack map

`parse_stackmaps` writes each stack map into two arrays of a fixed length. No write is outside
them, and what they hold is the stack map.
-/

namespace PicoJvm.Verifier

open PicoJvm.Lib
open PicoJvm.Lib.Fallible

/-! ## The arrays -/

/-- How the attribute is refused, and a write that is outside an array. -/
inductive AttributeError
  | parse (error : ParseError)
  | duplicateStackmapAttribute
  | badStackmapAttributeSize
  | outsideArray
  deriving DecidableEq, Repr

abbrev ParseAttribute := Except AttributeError

def Parse.lift {α : Type} (parse : Parse α) : ParseAttribute α :=
  parse.mapError .parse

/-- `stackmap_scalars` and `stackmap_classes`. -/
structure StackmapArrays where
  scalars : List Int
  classes : List (Option ClassName)
  deriving DecidableEq, Repr

namespace StackmapArrays

/-- New arrays, cleared. -/
def new (size : Nat) : StackmapArrays :=
  ⟨List.replicate size 0, List.replicate size none⟩

def intAtPut (arrays : StackmapArrays) (index : Nat) (value : Int) :
    ParseAttribute StackmapArrays :=
  if index < arrays.scalars.length then
    .ok { arrays with scalars := arrays.scalars.set index value }
  else
    .error .outsideArray

def objAtPut (arrays : StackmapArrays) (index : Nat) (name : ClassName) :
    ParseAttribute StackmapArrays :=
  if index < arrays.classes.length then
    .ok { arrays with classes := arrays.classes.set index (some name) }
  else
    .error .outsideArray

end StackmapArrays

/-- `ENCODE_NEWOBJECT`. -/
def encodeNewObject (pc : Nat) : Int :=
  Machine.signed (((pc % 65536) <<< 16 ||| 0x1000 : Nat) : Int)

/-! ## The parser -/

/-- The variables of the inner loop. -/
structure EntryState where
  arrays : StackmapArrays
  index : Nat
  sizeDelta : Nat
  deriving DecidableEq, Repr

/-- One entry, the `j`-th in the class file. -/
def storeEntry (constants : List Constant) (codeLength maxSize j : Nat) (state : EntryState)
    (bytes : List UInt8) : ParseAttribute (EntryState × List UInt8) := do
  let (stackType, bytes) ← (getU1 bytes).lift
  if j + state.sizeDelta ≥ maxSize then
    .error (.parse .badStackmapSize)
  else if stackType = 8 then do
    let (newInstr, bytes) ← (getU2 bytes).lift
    if newInstr ≥ codeLength then
      .error (.parse .badStackmapType)
    else do
      let arrays ← state.arrays.intAtPut state.index (encodeNewObject newInstr)
      .ok ({ state with arrays, index := state.index + 1 }, bytes)
  else if stackType < 7 then do
    let arrays ← state.arrays.intAtPut state.index stackType
    if stackType = 4 ∨ stackType = 3 then
      if j + state.sizeDelta + 1 ≥ maxSize then
        .error (.parse .badStackmapSize)
      else do
        let arrays ← arrays.intAtPut (state.index + 1) (if stackType = 4 then 9 else 10)
        .ok ({ arrays, index := state.index + 2, sizeDelta := state.sizeDelta + 1 }, bytes)
    else
      .ok ({ state with arrays, index := state.index + 1 }, bytes)
  else if stackType = 7 then do
    let (classIndex, bytes) ← (getU2 bytes).lift
    let name ← (stackmapClass constants classIndex).lift
    let arrays ← state.arrays.intAtPut state.index 7
    let arrays ← arrays.objAtPut state.index name
    .ok ({ state with arrays, index := state.index + 1 }, bytes)
  else
    .error (.parse .badStackmapType)

/-- The inner loop: the size is written again with each entry. -/
def storeEntries (constants : List Constant) (codeLength maxSize size sizeIndex : Nat) :
    Nat → Nat → EntryState → List UInt8 → ParseAttribute (EntryState × List UInt8)
  | 0, _, state, bytes => .ok (state, bytes)
  | left + 1, j, state, bytes => do
      let (state, bytes) ← storeEntry constants codeLength maxSize j state bytes
      let arrays ← state.arrays.intAtPut sizeIndex (size + state.sizeDelta : Nat)
      storeEntries constants codeLength maxSize size sizeIndex left (j + 1)
        { state with arrays } bytes

/-- The locals or the stack of a stack map, from an index on. -/
def storePart (constants : List Constant) (codeLength maxSize : Nat) (arrays : StackmapArrays)
    (index : Nat) (bytes : List UInt8) :
    ParseAttribute (StackmapArrays × Nat × List UInt8) := do
  let (size, bytes) ← (getU2 bytes).lift
  let (state, bytes) ← storeEntries constants codeLength maxSize size index size 0
    ⟨arrays, index + 1, 0⟩ bytes
  .ok (state.arrays, state.index, bytes)

/-- One round of the outer loop. -/
def storeStackmap (constants : List Constant) (maxStack frameSize codeLength : Nat)
    (bytes : List UInt8) : ParseAttribute (StackmapArrays × List UInt8) := do
  let arrays := StackmapArrays.new (maxStack + frameSize + 4)
  let (stackmapOffset, bytes) ← (getU2 bytes).lift
  let arrays ← arrays.intAtPut 0 stackmapOffset
  let (arrays, index, bytes) ← storePart constants codeLength frameSize arrays 1 bytes
  let (arrays, _, bytes) ← storePart constants codeLength maxStack arrays index bytes
  .ok (arrays, bytes)

/-- `parse_stackmaps`. -/
def storeStackmaps (constants : List Constant) (maxStack frameSize codeLength : Nat) :
    Nat → List UInt8 → ParseAttribute (List StackmapArrays × List UInt8)
  | 0, bytes => .ok ([], bytes)
  | left + 1, bytes => do
      let (arrays, bytes) ← storeStackmap constants maxStack frameSize codeLength bytes
      let (rest, bytes) ← storeStackmaps constants maxStack frameSize codeLength left bytes
      .ok (arrays :: rest, bytes)

/-- The part of `parse_code_attributes` for a `StackMap` attribute behind its length, with
whether the method has stack maps already. -/
def parseStackmapAttribute (constants : List Constant) (maxStack maxLocals codeLength : Nat)
    (seen : Bool) (attributeLength : Nat) (bytes : List UInt8) :
    ParseAttribute (List StackmapArrays × List UInt8) :=
  if seen then
    .error .duplicateStackmapAttribute
  else do
    let (numStackmaps, start) ← (getU2 bytes).lift
    let (stackmaps, rest) ← storeStackmaps constants maxStack maxLocals codeLength numStackmaps start
    if start.length - rest.length + 2 ≠ attributeLength then
      .error .badStackmapAttributeSize
    else
      .ok (stackmaps, rest)

/-! ## What the arrays hold -/

/-- `StackMapKind`, as a number. -/
def Tag.number : Tag → Int
  | .bogus => 0
  | .integer => 1
  | .float => 2
  | .double => 3
  | .long => 4
  | .null => 5
  | .initObject => 6
  | .object => 7
  | .newObject bci => encodeNewObject bci
  | .long2 => 9
  | .double2 => 10

abbrev Cell := Int × Option ClassName

def Slot.cell (slot : Slot) : Cell := (slot.tag.number, slot.klass)

/-- A cell with a number and no class. -/
def numberCell (number : Int) : Cell := (number, none)

/-- Arrays that are filled from the beginning. -/
def StackmapArrays.filled (total : Nat) (cells : List Cell) : StackmapArrays where
  scalars := cells.map Prod.fst ++ List.replicate (total - cells.length) 0
  classes := cells.map Prod.snd ++ List.replicate (total - cells.length) none

/-- The arrays of a stack map: its offset, and its locals and its stack behind their sizes. -/
def StackMap.arrays (total : Nat) (map : StackMap) : StackmapArrays :=
  .filled total (numberCell map.bci ::
    numberCell map.locals.length :: map.locals.map Slot.cell ++
    numberCell map.stack.length :: map.stack.map Slot.cell)

section Filled

variable {total : Nat} {cells : List Cell}

theorem filled_nil : StackmapArrays.new total = .filled total [] :=
  rfl

theorem set_end
    {α : Type} (items : List α) (count : Nat) (padding value : α)
    (room : 0 < count) :
    (items ++ List.replicate count padding).set items.length value =
      items ++ [value] ++ List.replicate (count - 1) padding := by
  obtain ⟨count, rfl⟩ : ∃ fewer, count = fewer + 1 := ⟨count - 1, by omega⟩
  rw [List.set_append_right _ _ (Nat.le_refl _), Nat.sub_self, List.replicate_succ, List.set_cons_zero,
    List.append_assoc]
  rfl

/-- A write behind the cells that are filled. -/
theorem intAtPut_end
    (room : cells.length < total)
    (value : Int) :
    (StackmapArrays.filled total cells).intAtPut cells.length value =
      .ok (.filled total (cells ++ [numberCell value])) := by
  have scalars := set_end (cells.map Prod.fst) (total - cells.length) (0 : Int) value (by omega)
  rw [List.length_map] at scalars
  have classes : List.replicate (total - cells.length) (none : Option ClassName) =
      [none] ++ List.replicate (total - cells.length - 1) none := by
    rw [show total - cells.length = total - cells.length - 1 + 1 by omega, List.replicate_succ]
    rfl
  unfold StackmapArrays.intAtPut
  rw [if_pos (by simp [StackmapArrays.filled]; omega)]
  unfold StackmapArrays.filled
  dsimp only
  rw [scalars, classes, List.length_append, List.length_singleton, Nat.sub_sub, List.map_append,
    List.map_append, ← List.append_assoc]
  rfl

/-- A class that is written behind its number. -/
theorem objAtPut_end
    (number : Int)
    (name : ClassName) :
    (StackmapArrays.filled total (cells ++ [numberCell number])).objAtPut cells.length name =
      .ok (.filled total (cells ++ [(number, some name)])) := by
  unfold StackmapArrays.objAtPut
  rw [if_pos (by simp [StackmapArrays.filled])]
  unfold StackmapArrays.filled
  simp [numberCell]

/-- A write over a number. -/
theorem intAtPut_again
    (number value : Int)
    (later : List Cell) :
    (StackmapArrays.filled total (cells ++ numberCell number :: later)).intAtPut cells.length value =
      .ok (.filled total (cells ++ numberCell value :: later)) := by
  unfold StackmapArrays.intAtPut
  rw [if_pos (by simp [StackmapArrays.filled])]
  unfold StackmapArrays.filled
  simp [numberCell]

end Filled

/-! ## The parser fills them -/

/-- What is done with the result of the parser of the class file, when it has one. -/
def Parse.into {α β : Type} (parse : Parse α) (next : α → β) : ParseAttribute β :=
  parse.lift.map next

theorem tagOfNumber_number
    {stackType : Nat}
    (below : stackType < 7) :
    (Slot.of (tagOfNumber stackType)).cell = numberCell stackType := by
  match stackType with
  | 0 | 1 | 2 | 3 | 4 | 5 | 6 => rfl
  | stackType + 7 => omega

/-- The second half of an entry is the tag of that number. -/
theorem tagOfNumber_second
    {stackType : Nat}
    (below : stackType < 7) :
    (tagOfNumber stackType).second =
      if stackType = 4 ∨ stackType = 3 then
        some (if stackType = 4 then .long2 else .double2)
      else
        none := by
  match stackType with
  | 0 | 1 | 2 | 3 | 4 | 5 | 6 => rfl
  | stackType + 7 => omega

/-- An entry behind its tag. -/
def parseEntry (constants : List Constant) (codeLength maxSize place : Nat) (bytes : List UInt8) :
    Parse (List Slot × List UInt8) := do
  let (stackType, bytes) ← getU1 bytes
  parseType constants codeLength maxSize place stackType bytes

theorem parseTypes_succ
    (constants : List Constant)
    (codeLength maxSize left place : Nat)
    (bytes : List UInt8) :
    parseTypes constants codeLength maxSize (left + 1) place bytes = (do
      let (slots, bytes) ← parseEntry constants codeLength maxSize place bytes
      let (rest, bytes) ← parseTypes constants codeLength maxSize left (place + slots.length) bytes
      .ok (slots ++ rest, bytes)) := by
  cases bytes <;> rfl

/-- The locals or the stack of a stack map. -/
def parsePart (constants : List Constant) (codeLength maxSize : Nat) (bytes : List UInt8) :
    Parse (List Slot × List UInt8) := do
  let (size, bytes) ← getU2 bytes
  parseTypes constants codeLength maxSize size 0 bytes

theorem parseStackmap_eq
    (constants : List Constant)
    (maxStack frameSize codeLength : Nat)
    (bytes : List UInt8) :
    parseStackmap constants maxStack frameSize codeLength bytes = (do
      let (bci, bytes) ← getU2 bytes
      let (locals, bytes) ← parsePart constants codeLength frameSize bytes
      let (stack, bytes) ← parsePart constants codeLength maxStack bytes
      .ok (⟨bci, locals, stack⟩, bytes)) := by
  unfold parseStackmap parsePart
  simp only [bind_assoc]

theorem storeTag_length
    {maxSize place : Nat} {tag : Tag} {slots : List Slot}
    (inside : place < maxSize)
    (stored : storeTag maxSize place tag = .ok slots) :
    1 ≤ slots.length ∧ place + slots.length ≤ maxSize := by
  unfold storeTag at stored
  split at stored
  · cases stored
    exact ⟨Nat.le_refl 1, inside⟩
  · obtain ⟨room, ok⟩ := guarded_eq_ok_iff.mp stored
    cases ok
    exact ⟨Nat.succ_le_succ (Nat.zero_le 1), Nat.not_le.mp room⟩

/-- An entry has slots, and they are inside. -/
theorem parseEntry_length
    {constants : List Constant} {codeLength maxSize place : Nat}
    {bytes rest : List UInt8} {slots : List Slot}
    (parsed : parseEntry constants codeLength maxSize place bytes = .ok (slots, rest)) :
    1 ≤ slots.length ∧ place + slots.length ≤ maxSize := by
  obtain ⟨⟨stackType, later⟩, _, parsed⟩ := bind_eq_ok_iff.mp parsed
  obtain ⟨inside, parsed⟩ := guarded_eq_ok_iff.mp parsed
  have inside := Nat.not_le.mp inside
  split at parsed
  · obtain ⟨⟨newInstr, later⟩, _, parsed⟩ := bind_eq_ok_iff.mp parsed
    obtain ⟨_, ok⟩ := guarded_eq_ok_iff.mp parsed
    cases ok
    exact ⟨Nat.le_refl 1, inside⟩
  · split at parsed
    · obtain ⟨stored, isStored, ok⟩ := bind_eq_ok_iff.mp parsed
      cases ok
      exact storeTag_length inside isStored
    · split at parsed
      · obtain ⟨⟨classIndex, later⟩, _, parsed⟩ := bind_eq_ok_iff.mp parsed
        obtain ⟨name, _, ok⟩ := bind_eq_ok_iff.mp parsed
        cases ok
        exact ⟨Nat.le_refl 1, inside⟩
      · cases parsed

section Fill

variable {constants : List Constant} {codeLength maxSize total : Nat}

/-- An entry is filled in as the parser reads it, when there is room for all that the stack map
may have. -/
theorem storeEntry_eq
    {cells : List Cell} {j sizeDelta : Nat}
    (room : cells.length + (maxSize - (j + sizeDelta)) ≤ total)
    (bytes : List UInt8) :
    storeEntry constants codeLength maxSize j ⟨.filled total cells, cells.length, sizeDelta⟩ bytes =
      (parseEntry constants codeLength maxSize (j + sizeDelta) bytes).into fun (slots, bytes) =>
        (⟨.filled total (cells ++ slots.map Slot.cell), cells.length + slots.length,
          sizeDelta + (slots.length - 1)⟩, bytes) := by
  cases bytes with
  | nil => rfl
  | cons stackType bytes =>
      simp only [storeEntry, parseEntry, parseType, getU1, Parse.lift, Parse.into, Except.mapError, ok_bind]
      by_cases full : j + sizeDelta ≥ maxSize
      · rw [if_pos full, if_pos full]
        rfl
      rw [if_neg full, if_neg full]
      have free : cells.length < total := by omega
      have write := fun value => @intAtPut_end total cells free value
      by_cases isNewObject : stackType.toNat = 8
      · rw [if_pos isNewObject, if_pos isNewObject]
        cases read : getU2 bytes with
        | error error => rfl
        | ok value =>
            obtain ⟨newInstr, bytes⟩ := value
            simp only [ok_bind]
            by_cases outside : newInstr ≥ codeLength
            · rw [if_pos outside, if_pos outside]
              rfl
            · rw [if_neg outside, if_neg outside, write]
              rfl
      rw [if_neg isNewObject, if_neg isNewObject]
      by_cases below : stackType.toNat < 7
      · rw [if_pos below, if_pos below, write]
        have first := tagOfNumber_number below
        unfold storeTag
        rw [tagOfNumber_second below]
        by_cases isDouble : stackType.toNat = 4 ∨ stackType.toNat = 3
        · simp only [ok_bind, if_pos isDouble]
          by_cases last : j + sizeDelta + 1 ≥ maxSize
          · rw [if_pos last, if_pos last]
            rfl
          · have again := @intAtPut_end total (cells ++ [numberCell stackType.toNat])
              (by rw [List.length_append, List.length_singleton]; omega)
              (if stackType.toNat = 4 then 9 else 10)
            rw [List.length_append, List.length_singleton, List.append_assoc] at again
            have second : (Slot.of (if stackType.toNat = 4 then .long2 else .double2)).cell =
                numberCell (if stackType.toNat = 4 then 9 else 10) := by
              split <;> rfl
            rw [if_neg last, if_neg last, again]
            simp only [ok_bind, Except.map, List.map_cons, List.map_nil, first, second]
            rfl
        · simp only [ok_bind, if_neg isDouble, Except.map, List.map_cons, List.map_nil, first]
          rfl
      rw [if_neg below, if_neg below]
      by_cases isObject : stackType.toNat = 7
      · rw [if_pos isObject, if_pos isObject]
        cases read : getU2 bytes with
        | error error => rfl
        | ok value =>
            obtain ⟨classIndex, bytes⟩ := value
            simp only [ok_bind]
            cases found : stackmapClass constants classIndex with
            | error error => rfl
            | ok name =>
                simp only [ok_bind, write, objAtPut_end]
                rfl
      · rw [if_neg isObject, if_neg isObject]
        rfl

/-- The entries that are left are filled in behind those there, and the size in front of them
ends as their number. -/
theorem storeEntries_eq
    (front : List Cell)
    (size : Nat)
    {left j sizeDelta : Nat} {soFar : List Slot} {number : Int}
    (room : front.length + 1 + maxSize ≤ total)
    (place : soFar.length = j + sizeDelta)
    (inside : soFar.length ≤ maxSize)
    (whole : size = j + left)
    (written : left = 0 → number = soFar.length)
    (bytes : List UInt8) :
    storeEntries constants codeLength maxSize size front.length left j
        ⟨.filled total (front ++ numberCell number :: soFar.map Slot.cell),
          front.length + 1 + soFar.length, sizeDelta⟩ bytes =
      (parseTypes constants codeLength maxSize left soFar.length bytes).into fun (slots, bytes) =>
        (⟨.filled total (front ++ numberCell (soFar ++ slots).length ::
            (soFar ++ slots).map Slot.cell),
          front.length + 1 + (soFar ++ slots).length, (soFar ++ slots).length - size⟩, bytes) := by
  induction left generalizing j sizeDelta soFar number bytes with
  | zero =>
      rw [written rfl]
      have delta : soFar.length - size = sizeDelta := by omega
      simp [storeEntries, parseTypes, Parse.into, Parse.lift, Except.mapError, Except.map, delta]
  | succ left induction =>
      have index : front.length + 1 + soFar.length =
          (front ++ numberCell number :: soFar.map Slot.cell).length := by
        simp only [List.length_append, List.length_cons, List.length_map]
        omega
      have entry := @storeEntry_eq constants codeLength maxSize total
        (front ++ numberCell number :: soFar.map Slot.cell) j sizeDelta (by omega) bytes
      rw [← place, ← index] at entry
      rw [storeEntries, parseTypes_succ, entry]
      cases parsed : parseEntry constants codeLength maxSize soFar.length bytes with
      | error error => rfl
      | ok value =>
          obtain ⟨slots, bytes⟩ := value
          obtain ⟨some, fits⟩ := parseEntry_length parsed
          have sizeWritten := @intAtPut_again total front number
            (size + (sizeDelta + (slots.length - 1)) : Nat) ((soFar ++ slots).map Slot.cell)
          have further := @induction (j + 1) (sizeDelta + (slots.length - 1)) (soFar ++ slots)
            (size + (sizeDelta + (slots.length - 1)) : Nat)
            (by rw [List.length_append]; omega) (by rw [List.length_append]; omega) (by omega)
            (by rw [List.length_append]; omega) bytes
          rw [List.length_append, ← Nat.add_assoc (front.length + 1)] at further
          simp only [Parse.into, Parse.lift, Except.mapError, Except.map, ok_bind] at further ⊢
          rw [List.append_assoc, List.cons_append, ← List.map_append, sizeWritten]
          simp only [ok_bind]
          rw [further]
          cases parseTypes constants codeLength maxSize left (soFar.length + slots.length) bytes with
          | error error => rfl
          | ok value => simp

/-- A number that is zero is there already. -/
theorem filled_zero
    {cells : List Cell}
    (room : cells.length < total) :
    StackmapArrays.filled total cells = .filled total (cells ++ [numberCell 0]) := by
  obtain ⟨count, countEq⟩ : ∃ count, total - cells.length = count + 1 :=
    ⟨total - cells.length - 1, by omega⟩
  have fewer : total - (cells ++ [numberCell 0]).length = count := by
    rw [List.length_append, List.length_singleton]
    omega
  unfold StackmapArrays.filled
  rw [fewer, countEq, List.map_append, List.map_append, List.append_assoc, List.append_assoc,
    List.replicate_succ, List.replicate_succ]
  rfl

theorem parseTypes_length
    {left place : Nat} {bytes rest : List UInt8} {slots : List Slot}
    (inside : place ≤ maxSize)
    (parsed : parseTypes constants codeLength maxSize left place bytes = .ok (slots, rest)) :
    place + slots.length ≤ maxSize := by
  induction left generalizing place bytes slots with
  | zero =>
      cases parsed
      exact inside
  | succ left induction =>
      rw [parseTypes_succ] at parsed
      obtain ⟨⟨here, bytes'⟩, isHere, parsed⟩ := bind_eq_ok_iff.mp parsed
      obtain ⟨⟨further, bytes''⟩, isFurther, ok⟩ := bind_eq_ok_iff.mp parsed
      cases ok
      have whole := induction (parseEntry_length isHere).2 isFurther
      rw [List.length_append, ← Nat.add_assoc]
      exact whole

theorem parsePart_length
    {bytes rest : List UInt8} {slots : List Slot}
    (parsed : parsePart constants codeLength maxSize bytes = .ok (slots, rest)) :
    slots.length ≤ maxSize := by
  obtain ⟨⟨size, later⟩, _, parsed⟩ := bind_eq_ok_iff.mp parsed
  have inside := parseTypes_length (Nat.zero_le _) parsed
  rwa [Nat.zero_add] at inside

theorem storePart_eq
    {front : List Cell}
    (room : front.length + 1 + maxSize ≤ total)
    (bytes : List UInt8) :
    storePart constants codeLength maxSize (.filled total front) front.length bytes =
      (parsePart constants codeLength maxSize bytes).into fun (slots, bytes) =>
        (.filled total (front ++ numberCell slots.length :: slots.map Slot.cell),
          front.length + 1 + slots.length, bytes) := by
  unfold storePart parsePart
  cases getU2 bytes with
  | error error => rfl
  | ok value =>
      obtain ⟨size, bytes⟩ := value
      have entries := @storeEntries_eq constants codeLength maxSize total front size size 0 0 [] 0 room rfl
        (Nat.zero_le _) (Nat.zero_add size).symm (fun _ => rfl) bytes
      simp only [Parse.into, Parse.lift, Except.mapError, ok_bind]
      rw [filled_zero (by omega)]
      simp only [List.map_nil, List.length_nil, Nat.add_zero, List.nil_append] at entries
      rw [entries]
      simp only [Parse.into, Parse.lift]
      cases parseTypes constants codeLength maxSize size 0 bytes <;> rfl

/-- One stack map ends up in the arrays. -/
theorem storeStackmap_eq
    (maxStack frameSize : Nat)
    (bytes : List UInt8) :
    storeStackmap constants maxStack frameSize codeLength bytes =
      (parseStackmap constants maxStack frameSize codeLength bytes).into fun (map, bytes) =>
        (map.arrays (maxStack + frameSize + 4), bytes) := by
  rw [parseStackmap_eq]
  unfold storeStackmap
  cases getU2 bytes with
  | error error => rfl
  | ok value =>
      obtain ⟨bci, bytes⟩ := value
      have offset := @intAtPut_end (maxStack + frameSize + 4) [] (by
        rw [List.length_nil]
        omega) bci
      rw [List.length_nil, ← filled_nil, List.nil_append] at offset
      have locals := @storePart_eq constants codeLength frameSize (maxStack + frameSize + 4)
        [numberCell bci]
        (by rw [List.length_singleton]; omega) bytes
      rw [List.length_singleton] at locals
      simp only [Parse.lift, Except.mapError, ok_bind, offset]
      rw [locals]
      cases parsedLocals : parsePart constants codeLength frameSize bytes with
      | error error => rfl
      | ok value =>
          obtain ⟨slots, bytes⟩ := value
          have fits := parsePart_length parsedLocals
          have stack := @storePart_eq constants codeLength maxStack (maxStack + frameSize + 4)
            (numberCell bci :: numberCell slots.length :: slots.map Slot.cell)
            (by simp only [List.length_cons, List.length_map]; omega) bytes
          have index : 1 + 1 + slots.length =
              (numberCell bci :: numberCell slots.length :: slots.map Slot.cell).length := by
            simp only [List.length_cons, List.length_map]
            omega
          simp only [Parse.into, Parse.lift, Except.mapError, Except.map, ok_bind,
            List.singleton_append, index] at stack ⊢
          rw [stack]
          cases parsePart constants codeLength maxStack bytes with
          | error error => rfl
          | ok value => rfl

/-- The stack maps of a class file end up in arrays, and nothing is written outside them. -/
theorem storeStackmaps_eq
    (maxStack frameSize numStackmaps : Nat)
    (bytes : List UInt8) :
    storeStackmaps constants maxStack frameSize codeLength numStackmaps bytes =
      (parseStackmaps constants maxStack frameSize codeLength numStackmaps bytes).into
        fun (maps, bytes) => (maps.map (·.arrays (maxStack + frameSize + 4)), bytes) := by
  induction numStackmaps generalizing bytes with
  | zero => rfl
  | succ left induction =>
      rw [storeStackmaps, parseStackmaps, storeStackmap_eq]
      cases parseStackmap constants maxStack frameSize codeLength bytes with
      | error error => rfl
      | ok value =>
          obtain ⟨map, bytes⟩ := value
          have further := induction bytes
          simp only [Parse.into, Parse.lift, Except.mapError, Except.map, ok_bind] at further ⊢
          rw [further]
          cases parseStackmaps constants maxStack frameSize codeLength left bytes with
          | error error => rfl
          | ok value => rfl

end Fill

end PicoJvm.Verifier
