import PicoJvm.Files.PathRouting
import PicoJvm.Lib.Fallible

/-!
# Configuration in flash

`FlashConfig` copies the configuration sector into a buffer and looks for the line of a key.
The scan of the buffer is compared with the lines that were stored.
-/

namespace PicoJvm.Flash

open PicoJvm.Files
open PicoJvm.Lib.Fallible

/-! ## Reading the sector -/

/-- `MAX_CONFIG_SIZE`. -/
def maxConfigSize : Nat := 1024

/-- The loop of `flash_read_config`, for at most `left` bytes. -/
def readConfig (flash : Nat → UInt8) : (left len : Nat) → List UInt8 → Nat × List UInt8
  | 0, len, buf => (len, buf)
  | left + 1, len, buf =>
      if flash len ≠ 0x00 ∧ flash len ≠ 0xFF then
        readConfig flash left (len + 1) (buf.set len (flash len))
      else
        (len, buf)

/-- `flash_read_config`: how many bytes were read, and the buffer. -/
def flashReadConfig (flash : Nat → UInt8) (buf : List UInt8) (maxLen : Nat) :
    Nat × List UInt8 :=
  readConfig flash maxLen 0 buf

/-! ## Looking for a key -/

/-- Java throws at a place outside an array. -/
inductive Thrown
  | indexOutOfBounds
  deriving DecidableEq, Repr

/-- `buf[i]`. -/
def byteAt (buf : List UInt8) (i : Nat) : Except Thrown UInt8 :=
  match buf[i]? with
  | some byte => .ok byte
  | none => .error .indexOutOfBounds

/-- The characters of bytes in ISO 8859-1, the default encoding. -/
def decode (bytes : List UInt8) : JavaString :=
  bytes.map UInt8.toUInt16

/-- `new String(buf, offset, length)`. -/
def newString (buf : List UInt8) (offset length : Nat) : Except Thrown JavaString :=
  if offset + length ≤ buf.length then
    .ok (decode ((buf.drop offset).take length))
  else
    .error .indexOutOfBounds

/-- The inner loop: `eqPos`, or nothing for -1. -/
def findEq (buf : List UInt8) : (left j : Nat) → Except Thrown (Option Nat)
  | 0, _ => .ok none
  | left + 1, j => do
      let byte ← byteAt buf j
      if byte = 61 then
        .ok (some j)
      else
        findEq buf left (j + 1)

/-- What `get` does with the line from `lineStart` to `i`. -/
def processLine (buf : List UInt8) (key : Option JavaString) (lineStart i : Nat) :
    Except Thrown (Option JavaString) :=
  let lineLen := i - lineStart
  if lineLen > 0 then do
    match ← findEq buf lineLen lineStart with
    | none => .ok none
    | some eqPos =>
        if eqPos > lineStart then do
          let k ← newString buf lineStart (eqPos - lineStart)
          if some k = key then do
            let value ← newString buf (eqPos + 1) (i - eqPos - 1)
            .ok (some value)
          else
            .ok none
        else
          .ok none
  else
    .ok none

/-- Whether a line ends at `i`. -/
def endsLine (buf : List UInt8) (len i : Nat) : Except Thrown Bool :=
  if i = len then
    .ok true
  else do
    let byte ← byteAt buf i
    .ok (byte = 10 || byte = 13)

/-- The loop of `get`. -/
def getLoop (buf : List UInt8) (len : Nat) (key : Option JavaString) :
    (left lineStart i : Nat) → Except Thrown (Option JavaString)
  | 0, _, _ => .ok none
  | left + 1, lineStart, i => do
      if ← endsLine buf len i then
        match ← processLine buf key lineStart i with
        | some value => .ok (some value)
        | none => getLoop buf len key left (i + 1) (i + 1)
      else
        getLoop buf len key left lineStart (i + 1)

/-- `FlashConfig.get`, of a key that may be `null`. -/
def get (flash : Nat → UInt8) (key : Option JavaString) : Except Thrown (Option JavaString) :=
  let (len, buf) := flashReadConfig flash (List.replicate maxConfigSize 0) maxConfigSize
  if len ≤ 0 then
    .ok none
  else
    getLoop buf len key (len + 1) 0 0

/-! ## What is stored -/

/-- The text of a line. -/
structure LineText where
  bytes : List UInt8
  plain : ∀ byte ∈ bytes, byte ≠ 10 ∧ byte ≠ 13 ∧ byte ≠ 0x00 ∧ byte ≠ 0xFF

inductive LineEnd
  | lf
  | cr
  | crlf
  deriving DecidableEq, Repr

def LineEnd.bytes : LineEnd → List UInt8
  | .lf => [10]
  | .cr => [13]
  | .crlf => [13, 10]

/-- Lines with their ends, and a last line without one, which may be empty. -/
structure ConfigText where
  lines : List (LineText × LineEnd)
  last : LineText

namespace ConfigText

def bytes (text : ConfigText) : List UInt8 :=
  text.lines.flatMap (fun line => line.1.bytes ++ line.2.bytes) ++ text.last.bytes

/-- The texts of all lines. -/
def texts (text : ConfigText) : List (List UInt8) :=
  text.lines.map (·.1.bytes) ++ [text.last.bytes]

end ConfigText

/-- A configuration sector: a text, and behind it a byte that ends it unless it fills the
sector. -/
structure Sector where
  text : ConfigText
  flash : Nat → UInt8
  fits : text.bytes.length ≤ maxConfigSize
  stored : ∀ place (inside : place < text.bytes.length), flash place = text.bytes[place]
  ended : text.bytes.length < maxConfigSize →
    flash text.bytes.length = 0x00 ∨ flash text.bytes.length = 0xFF

/-- The key and the value of a line: what is before its first `=`, and what is behind. -/
def keyValue (text : List UInt8) : Option (JavaString × JavaString) :=
  if 61 ∈ text then
    some (decode (text.takeWhile (· ≠ 61)), decode (text.dropWhile (· ≠ 61)).tail)
  else
    none

/-- The value of the first line with a key. -/
def firstValue (key : JavaString) (texts : List (List UInt8)) : Option JavaString :=
  ((texts.filterMap keyValue).find? (·.1 = key)).map Prod.snd

/-! ## The scan of a line -/

theorem byteAt_append (before rest : List UInt8) (byte : UInt8) :
    byteAt (before ++ byte :: rest) before.length = .ok byte := by
  rw [byteAt, List.getElem?_append_right (Nat.le_refl _), Nat.sub_self]
  rfl

theorem newString_append (before middle after : List UInt8) :
    newString (before ++ (middle ++ after)) before.length middle.length =
      .ok (decode middle) := by
  have inside : before.length + middle.length ≤ (before ++ (middle ++ after)).length := by
    simp only [List.length_append]
    omega
  rw [newString, if_pos inside, List.drop_left, List.take_left]

theorem findEq_append (before text after : List UInt8) :
    findEq (before ++ (text ++ after)) text.length before.length =
      .ok (if 61 ∈ text then some (before.length + (text.takeWhile (· ≠ 61)).length)
        else none) := by
  induction text generalizing before with
  | nil =>
      rfl
  | cons byte text inductionHypothesis =>
      rw [List.length_cons, findEq, List.cons_append, byteAt_append, ok_bind]
      by_cases isEq : byte = 61
      · subst isEq
        simp
      · rw [if_neg isEq]
        have next := inductionHypothesis (before ++ [byte])
        rw [List.append_assoc, List.singleton_append, List.length_append,
          List.length_singleton] at next
        rw [next, List.takeWhile_cons_of_pos (by simpa using isEq), List.length_cons]
        have same : (61 ∈ byte :: text) ↔ 61 ∈ text := by
          rw [List.mem_cons, or_iff_right (Ne.symm isEq)]
        simp only [same, Nat.add_assoc, Nat.add_comm 1]

/-- What the scan takes from the text of a line. -/
def lineValue (key : Option JavaString) (text : List UInt8) : Option JavaString :=
  match keyValue text with
  | some (lineKey, value) => if lineKey ≠ [] ∧ some lineKey = key then some value else none
  | none => none

theorem takeWhile_of_split
    {front : List UInt8}
    (keyOnly : 61 ∉ front)
    (back : List UInt8) :
    (front ++ 61 :: back).takeWhile (· ≠ 61) = front ∧
      (front ++ 61 :: back).dropWhile (· ≠ 61) = 61 :: back := by
  have plain : ∀ byte ∈ front, decide (byte ≠ 61) = true := by
    intro byte member
    rw [decide_eq_true_eq]
    rintro rfl
    exact keyOnly member
  rw [List.takeWhile_append_of_pos plain, List.dropWhile_append_of_pos plain]
  simp

theorem keyValue_of_split
    {front : List UInt8}
    (keyOnly : 61 ∉ front)
    (back : List UInt8) :
    keyValue (front ++ 61 :: back) = some (decode front, decode back) := by
  rw [keyValue, if_pos (by simp), (takeWhile_of_split keyOnly back).1,
    (takeWhile_of_split keyOnly back).2, List.tail_cons]

theorem processLine_eq
    (key : Option JavaString)
    (before text after : List UInt8) :
    processLine (before ++ (text ++ after)) key before.length (before.length + text.length) =
      .ok (lineValue key text) := by
  rw [processLine, Nat.add_sub_cancel_left]
  by_cases hasEq : 61 ∈ text
  · obtain ⟨front, back, rfl, keyOnly⟩ := List.eq_append_cons_of_mem hasEq
    have found := findEq_append before (front ++ 61 :: back) after
    rw [if_pos hasEq, (takeWhile_of_split keyOnly back).1] at found
    have someBytes : (front ++ 61 :: back).length > 0 := by
      simp only [List.length_append, List.length_cons]
      omega
    rw [if_pos someBytes, found, ok_bind, lineValue, keyValue_of_split keyOnly]
    dsimp only
    by_cases noKey : front = []
    · subst noKey
      simp [decode]
    · have longer : before.length + front.length > before.length := by
        have := List.length_pos_iff.mpr noKey
        omega
      have keyText := newString_append before front (61 :: back ++ after)
      have valueText := newString_append (before ++ (front ++ [61])) back after
      have isKey : decode front ≠ [] := by simpa [decode] using noKey
      rw [if_pos longer, Nat.add_sub_cancel_left, List.append_assoc, keyText, ok_bind]
      by_cases same : some (decode front) = key
      · rw [if_pos same, if_pos ⟨isKey, same⟩]
        have place : (before ++ (front ++ [61])).length = before.length + front.length + 1 := by
          simp only [List.length_append, List.length_singleton]
          omega
        have rest : before.length + (front ++ 61 :: back).length -
            (before.length + front.length) - 1 = back.length := by
          simp only [List.length_append, List.length_cons]
          omega
        rw [place] at valueText
        simp only [List.append_assoc, List.singleton_append] at valueText
        rw [rest, List.cons_append, valueText, ok_bind]
      · rw [if_neg same, if_neg (fun both => same both.2)]
  · have found := findEq_append before text after
    rw [if_neg hasEq] at found
    rw [found, ok_bind, lineValue, keyValue, if_neg hasEq]
    split <;> rfl

/-! ## The scan of the buffer -/

def isLineEnd (byte : UInt8) : Bool :=
  byte = 10 || byte = 13

theorem processLine_begun
    (key : Option JavaString)
    (before begun after : List UInt8) :
    processLine (before ++ (begun.reverse ++ after)) key before.length
        (before.length + begun.length) =
      .ok (lineValue key begun.reverse) := by
  have line := processLine_eq key before begun.reverse after
  rwa [List.length_reverse] at line

/-- The lines of the part that is left, the first of which has begun. -/
theorem getLoop_eq
    (key : Option JavaString)
    (pad before begun left : List UInt8) :
    getLoop (before ++ (begun.reverse ++ (left ++ pad)))
        (before.length + begun.length + left.length) key (left.length + 1) before.length
        (before.length + begun.length) =
      .ok ((List.splitOnPPrepend isLineEnd left begun).findSome? (lineValue key)) := by
  induction left generalizing before begun with
  | nil =>
      rw [List.length_nil, Nat.add_zero, getLoop, endsLine, if_pos rfl, ok_bind, if_pos rfl,
        processLine_begun, ok_bind, List.splitOnPPrepend_nil, List.findSome?_singleton]
      cases lineValue key begun.reverse <;> rfl
  | cons byte left inductionHypothesis =>
      have inside : before.length + begun.length ≠
          before.length + begun.length + (left.length + 1) := by
        omega
      have size : before.length + begun.length + (left.length + 1) =
          before.length + (begun.length + 1) + left.length := by
        omega
      have here := byteAt_append (before ++ begun.reverse) (left ++ pad) byte
      rw [List.length_append, List.length_reverse, List.append_assoc] at here
      rw [List.length_cons, getLoop, endsLine, if_neg inside, List.cons_append, here, ok_bind,
        ok_bind]
      by_cases ends : isLineEnd byte = true
      · rw [List.splitOnPPrepend_cons_pos ends, List.findSome?_cons]
        rw [isLineEnd] at ends
        rw [if_pos ends, processLine_begun, ok_bind]
        cases found : lineValue key begun.reverse with
        | some value =>
            rfl
        | none =>
            have next := inductionHypothesis (before ++ (begun.reverse ++ [byte])) []
            simp only [List.length_append, List.length_reverse, List.length_singleton,
              List.length_nil, List.reverse_nil, List.nil_append, Nat.add_zero, List.append_assoc,
              List.singleton_append, List.splitOnPPrepend_nil_right] at next
            rw [← next, size]
            rfl
      · rw [List.splitOnPPrepend_cons_neg (by simpa using ends)]
        rw [isLineEnd] at ends
        rw [if_neg ends]
        have next := inductionHypothesis before (byte :: begun)
        rw [List.reverse_cons, List.append_assoc, List.singleton_append, List.length_cons] at next
        rw [← next, size]
        rfl

/-! ## The lines that are stored -/

theorem readConfig_eq
    {flash : Nat → UInt8}
    {bytes read : List UInt8}
    (left : Nat)
    (fits : bytes.length ≤ left)
    (stored : ∀ place (inside : place < bytes.length),
      flash (read.length + place) = bytes[place] ∧ bytes[place] ≠ 0x00 ∧ bytes[place] ≠ 0xFF)
    (ended : bytes.length < left →
      flash (read.length + bytes.length) = 0x00 ∨ flash (read.length + bytes.length) = 0xFF)
    (rest : List UInt8)
    (room : left ≤ rest.length) :
    readConfig flash left read.length (read ++ rest) =
      (read.length + bytes.length, read ++ bytes ++ rest.drop bytes.length) := by
  induction left generalizing bytes read rest with
  | zero =>
      have none' : bytes = [] := List.length_eq_zero_iff.mp (Nat.le_zero.mp fits)
      subst none'
      simp [readConfig]
  | succ left inductionHypothesis =>
      cases bytes with
      | nil =>
          have stops : ¬ (flash read.length ≠ 0x00 ∧ flash read.length ≠ 0xFF) := by
            rintro ⟨notZero, notErased⟩
            rcases ended (Nat.succ_pos left) with zero | erased
            · exact notZero zero
            · exact notErased erased
          rw [readConfig, if_neg stops]
          simp
      | cons byte bytes =>
          obtain ⟨first, notZero, notErased⟩ := stored 0 (Nat.succ_pos _)
          rw [Nat.add_zero, List.getElem_cons_zero] at first
          rw [List.getElem_cons_zero] at notZero notErased
          cases rest with
          | nil =>
              simp at room
          | cons old rest =>
              have next := @inductionHypothesis bytes (read ++ [byte])
                (Nat.le_of_succ_le_succ fits)
                (by
                  intro place inside
                  have there := stored (place + 1) (Nat.succ_lt_succ inside)
                  rw [List.getElem_cons_succ] at there
                  rw [List.length_append, List.length_singleton, Nat.add_assoc, Nat.add_comm 1]
                  exact there)
                (by
                  intro short
                  have there := ended (Nat.succ_lt_succ short)
                  rw [List.length_cons] at there
                  rw [List.length_append, List.length_singleton, Nat.add_assoc, Nat.add_comm 1]
                  exact there)
                rest (Nat.le_of_succ_le_succ room)
              rw [List.length_append, List.length_singleton, List.append_assoc,
                List.singleton_append] at next
              rw [readConfig, first, if_pos ⟨notZero, notErased⟩,
                List.set_append_right _ _ (Nat.le_refl _), Nat.sub_self, List.set_cons_zero, next]
              simp [Nat.add_assoc, Nat.add_comm 1]

theorem ConfigText.bytes_stored
    (text : ConfigText) :
    ∀ byte ∈ text.bytes, byte ≠ 0x00 ∧ byte ≠ 0xFF := by
  intro byte member
  rcases List.mem_append.mp member with inLine | inLast
  · obtain ⟨line, _, inside⟩ := List.mem_flatMap.mp inLine
    rcases List.mem_append.mp inside with inText | inEnd
    · exact (line.1.plain byte inText).2.2
    · cases isEnd : line.2 <;> rw [isEnd] at inEnd <;> simp only [LineEnd.bytes, List.mem_cons,
        List.not_mem_nil, or_false] at inEnd <;> rcases inEnd with rfl | rfl <;> decide
  · exact (text.last.plain byte inLast).2.2

/-- The whole text is read. -/
theorem Sector.flashReadConfig_eq
    (sector : Sector) :
    flashReadConfig sector.flash (List.replicate maxConfigSize 0) maxConfigSize =
      (sector.text.bytes.length, sector.text.bytes ++
        List.replicate (maxConfigSize - sector.text.bytes.length) 0) := by
  have read := @readConfig_eq sector.flash sector.text.bytes [] maxConfigSize sector.fits
    (by
      intro place inside
      rw [List.length_nil, Nat.zero_add]
      exact ⟨sector.stored place inside,
        sector.text.bytes_stored _ (List.getElem_mem inside)⟩)
    (by
      intro short
      rw [List.length_nil, Nat.zero_add]
      exact sector.ended short)
    (List.replicate maxConfigSize 0) (Nat.le_of_eq List.length_replicate.symm)
  rw [List.length_nil, List.nil_append, List.nil_append, Nat.zero_add, List.drop_replicate] at read
  exact read

theorem lineValue_nil (key : Option JavaString) : lineValue key [] = none := by
  simp [lineValue, keyValue]

/-- `get` looks through the pieces between the line ends. -/
theorem Sector.get_eq_findSome
    (sector : Sector)
    (key : Option JavaString) :
    get sector.flash key =
      .ok ((sector.text.bytes.splitOnP isLineEnd).findSome? (lineValue key)) := by
  rw [get, sector.flashReadConfig_eq]
  dsimp only
  by_cases nothing : sector.text.bytes = []
  · rw [nothing]
    simp [lineValue_nil]
  · have someBytes : ¬ sector.text.bytes.length ≤ 0 := by
      have := List.length_pos_iff.mpr nothing
      omega
    have scanned := getLoop_eq key
      (List.replicate (maxConfigSize - sector.text.bytes.length) 0) [] [] sector.text.bytes
    rw [if_neg someBytes, ← List.splitOnPPrepend_nil_right, ← scanned]
    simp

/-- A line end after a carriage return ends an empty line. -/
theorem findSome_splitOnP
    {found : Type}
    {value : List UInt8 → Option found}
    (nothing : value [] = none)
    (text : ConfigText) :
    (text.bytes.splitOnP isLineEnd).findSome? value = text.texts.findSome? value := by
  have plain : ∀ text : LineText, ∀ byte ∈ text.bytes, isLineEnd byte = false := by
    intro text byte member
    obtain ⟨notLf, notCr, _⟩ := text.plain byte member
    simp [isLineEnd, notLf, notCr]
  obtain ⟨lines, last⟩ := text
  rw [ConfigText.bytes, ConfigText.texts]
  induction lines with
  | nil =>
      simp [List.splitOnP_eq_singleton (plain last)]
  | cons line lines inductionHypothesis =>
      obtain ⟨lineText, lineEnd⟩ := line
      simp only [List.flatMap_cons, List.map_cons, List.cons_append, List.findSome?_cons,
        List.append_assoc]
      rw [← inductionHypothesis]
      cases lineEnd with
      | lf =>
          rw [LineEnd.bytes, List.singleton_append,
            List.splitOnP_append_cons_of_forall_mem (plain lineText) 10 rfl,
            List.findSome?_cons]
      | cr =>
          rw [LineEnd.bytes, List.singleton_append,
            List.splitOnP_append_cons_of_forall_mem (plain lineText) 13 rfl,
            List.findSome?_cons]
      | crlf =>
          have between := @List.splitOnP_append_cons_of_forall_mem _ isLineEnd []
            (by simp) 10 rfl
            (lines.flatMap (fun line => line.1.bytes ++ line.2.bytes) ++ last.bytes)
          rw [List.nil_append] at between
          rw [LineEnd.bytes, List.cons_append, List.singleton_append,
            List.splitOnP_append_cons_of_forall_mem (plain lineText) 13 rfl, between,
            List.findSome?_cons, List.findSome?_cons, nothing]

theorem findSome_lineValue
    (key : Option JavaString)
    (texts : List (List UInt8)) :
    texts.findSome? (lineValue key) =
      key.bind fun key => if key = [] then none else firstValue key texts := by
  induction texts with
  | nil =>
      cases key <;> simp [firstValue]
  | cons text texts inductionHypothesis =>
      rw [List.findSome?_cons, inductionHypothesis, lineValue]
      cases isEntry : keyValue text with
      | none =>
          simp [firstValue, isEntry]
      | some entry =>
          obtain ⟨lineKey, value⟩ := entry
          cases key with
          | none =>
              simp
          | some key =>
              simp only [firstValue, List.filterMap_cons, isEntry, Option.bind_some,
                Option.some.injEq]
              by_cases same : lineKey = key
              · subst same
                by_cases noKey : lineKey = [] <;> simp [noKey]
              · rw [if_neg (fun both => same both.2), List.find?_cons_of_neg (by simpa using same)]

/-- `get` gives the value of the first line with the key, and nothing when there is none; lines
without a key are passed over. -/
theorem get_firstValue
    (sector : Sector)
    (key : Option JavaString) :
    get sector.flash key =
      .ok (key.bind fun key =>
        if key = [] then none else firstValue key sector.text.texts) := by
  rw [sector.get_eq_findSome, findSome_splitOnP (lineValue_nil key), findSome_lineValue]

/-- One line, `=v`. -/
def namelessSector : Sector where
  text := ⟨[(⟨[61, 118], by decide +kernel⟩, .lf)], ⟨[], by decide +kernel⟩⟩
  flash place := [61, 118, 10].getD place 0xFF
  fits := by decide
  stored := by decide
  ended _ := by decide

/-- The empty key has a first line, and `get` does not give its value. -/
theorem get_passes_over_nameless :
    ¬ ∀ (sector : Sector) (key : JavaString),
      get sector.flash (some key) = .ok (firstValue key sector.text.texts) := by
  intro always
  have value := always namelessSector []
  revert value
  decide +kernel

end PicoJvm.Flash
