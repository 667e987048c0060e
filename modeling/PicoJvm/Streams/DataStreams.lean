import PicoJvm.Lib.CharacterForms

/-!
# Data streams

`DataOutputStream` and `DataInputStream`: the bytes of numbers and of strings, over a stream that
takes every byte, and over one that gives its bytes in parts of any size.
-/

namespace PicoJvm.Streams

open PicoJvm.Lib.CharacterForms (Byte)

abbrev JavaChar := BitVec 16

/-- What ends a method without a result. `unfinished` is a loop that does not end. -/
inductive Thrown
  | eof
  | utfDataFormat
  | indexOutOfBounds
  | arrayIndexOutOfBounds
  | outOfMemory
  | unfinished
  deriving DecidableEq, Repr

/-- A `String`: its array cannot be longer. -/
structure JavaText where
  chars : List JavaChar
  length_le : chars.length ≤ 0x08000000

/-- `new String(char[], int, int)`, of the characters of an array. -/
def newString {state : Type} (chars : List JavaChar) : EStateM Thrown state JavaText :=
  if length_le : chars.length ≤ 0x08000000 then
    return ⟨chars, length_le⟩
  else
    throw .outOfMemory

/-! ## Writing -/

/-- A method that writes to the underlying stream, of which the state is what was written. -/
abbrev Output := EStateM Thrown (List Byte)

/-- `write(int)`. -/
def write (b : BitVec 32) : Output Unit :=
  modify (· ++ [b.setWidth 8])

/-- `write(byte[])`. -/
def writeBytes (b : List Byte) : Output Unit :=
  modify (· ++ b)

def writeBoolean (v : Bool) : Output Unit :=
  write (if v then 1#32 else 0#32)

def writeByte (v : BitVec 32) : Output Unit :=
  write v

def writeShort (v : BitVec 32) : Output Unit := do
  write ((v >>> 8) &&& 0xFF#32)
  write ((v >>> 0) &&& 0xFF#32)

/-- `writeChar`, which is written as `writeShort` is. -/
def writeChar (v : BitVec 32) : Output Unit :=
  writeShort v

def writeInt (v : BitVec 32) : Output Unit := do
  write ((v >>> 24) &&& 0xFF#32)
  write ((v >>> 16) &&& 0xFF#32)
  write ((v >>> 8) &&& 0xFF#32)
  write ((v >>> 0) &&& 0xFF#32)

def writeLong (v : BitVec 64) : Output Unit := do
  write ((v >>> 56).setWidth 32 &&& 0xFF#32)
  write ((v >>> 48).setWidth 32 &&& 0xFF#32)
  write ((v >>> 40).setWidth 32 &&& 0xFF#32)
  write ((v >>> 32).setWidth 32 &&& 0xFF#32)
  write ((v >>> 24).setWidth 32 &&& 0xFF#32)
  write ((v >>> 16).setWidth 32 &&& 0xFF#32)
  write ((v >>> 8).setWidth 32 &&& 0xFF#32)
  write ((v >>> 0).setWidth 32 &&& 0xFF#32)

/-- The first loop of `writeUTF`, which counts the bytes. -/
def countUtf (utflen : Nat) : List JavaChar → Nat
  | [] => utflen
  | c :: charr =>
      if 0x0001 ≤ c.toNat ∧ c.toNat ≤ 0x007F then
        countUtf (utflen + 1) charr
      else if 0x07FF < c.toNat then
        countUtf (utflen + 3) charr
      else
        countUtf (utflen + 2) charr

/-- `bytearr[count++] = b`. -/
def store (b : Byte) : StateT (List Byte × Nat) (Except Thrown) Unit := fun (bytearr, count) =>
  if count < bytearr.length then
    .ok (⟨⟩, bytearr.set count b, count + 1)
  else
    .error .arrayIndexOutOfBounds

/-- The second loop of `writeUTF`, which stores the bytes. -/
def storeUtf : List JavaChar → StateT (List Byte × Nat) (Except Thrown) Unit
  | [] => return ⟨⟩
  | char :: charr => do
      let c := char.setWidth 32
      if 0x0001 ≤ c.toNat ∧ c.toNat ≤ 0x007F then
        store (c.setWidth 8)
      else if 0x07FF < c.toNat then
        store ((0xE0#32 ||| ((c >>> 12) &&& 0x0F#32)).setWidth 8)
        store ((0x80#32 ||| ((c >>> 6) &&& 0x3F#32)).setWidth 8)
        store ((0x80#32 ||| ((c >>> 0) &&& 0x3F#32)).setWidth 8)
      else
        store ((0xC0#32 ||| ((c >>> 6) &&& 0x1F#32)).setWidth 8)
        store ((0x80#32 ||| ((c >>> 0) &&& 0x3F#32)).setWidth 8)
      storeUtf charr

/-- The array that `writeUTF` makes. -/
def utfBytes (str : JavaText) (utflen : Nat) : Except Thrown (List Byte) := do
  let length := BitVec.ofNat 32 utflen
  let (_, bytearr, _) ← (do
    store (((length >>> 8) &&& 0xFF#32).setWidth 8)
    store (((length >>> 0) &&& 0xFF#32).setWidth 8)
    storeUtf str.chars : StateT (List Byte × Nat) (Except Thrown) Unit).run
      (List.replicate (utflen + 2) 0, 0)
  return bytearr

def writeUTF (str : JavaText) : Output Nat := do
  let utflen := countUtf 0 str.chars
  if 65535 < utflen then
    throw .utfDataFormat
  else
    writeBytes (← liftExcept (utfBytes str utflen))
    return utflen + 2
where
  liftExcept {result : Type} : Except Thrown result → Output result
    | .ok value => return value
    | .error thrown => throw thrown

/-! ## Reading -/

/-- The underlying stream: the bytes it has left, and how many it gives at once when so many are
left. -/
structure Source where
  bytes : List Byte
  grant : Nat → Nat

abbrev Input := EStateM Thrown Source

/-- `read()`. -/
def read : Input (BitVec 32) := do
  let source ← get
  match source.bytes with
  | [] => return -1#32
  | b :: rest => do
      set { source with bytes := rest }
      return b.setWidth 32

/-- How many bytes the stream gives of so many: at least one, and no more than it has. -/
def Source.given (source : Source) (len : Nat) : Nat :=
  min (max 1 (source.grant source.bytes.length)) (min len source.bytes.length)

/-- `read(byte[], int, int)`: the bytes that were read, and none at the end of the stream. -/
def readSome (len : Nat) : Input (Option (List Byte)) := do
  let source ← get
  if source.bytes = [] then
    return none
  else
    let count := source.given len
    set { source with bytes := source.bytes.drop count }
    return some (source.bytes.take count)

/-- The loop of `readFully`, with the bytes read so far. -/
def readFullyFrom (len : Nat) : Nat → List Byte → Input (List Byte)
  | 0, _ => throw .unfinished
  | fuel + 1, b =>
      if b.length < len then do
        match ← readSome (len - b.length) with
        | none => throw .eof
        | some part => readFullyFrom len fuel (b ++ part)
      else
        return b

/-- `readFully`. -/
def readFully (len : Nat) : Input (List Byte) :=
  readFullyFrom len (len + 1) []

def readBoolean : Input Bool := do
  let ch ← read
  if ch.slt 0#32 then
    throw .eof
  else
    return ch ≠ 0#32

def readByte : Input Byte := do
  let ch ← read
  if ch.slt 0#32 then
    throw .eof
  else
    return ch.setWidth 8

def readUnsignedShort : Input (BitVec 32) := do
  let ch1 ← read
  let ch2 ← read
  if (ch1 ||| ch2).slt 0#32 then
    throw .eof
  else
    return (ch1 <<< 8) + (ch2 <<< 0)

def readShort : Input (BitVec 16) := do
  return (← readUnsignedShort).setWidth 16

/-- `readChar`, of which the cast takes the same bits. -/
def readChar : Input JavaChar :=
  readShort

def readInt : Input (BitVec 32) := do
  let ch1 ← read
  let ch2 ← read
  let ch3 ← read
  let ch4 ← read
  if (ch1 ||| ch2 ||| ch3 ||| ch4).slt 0#32 then
    throw .eof
  else
    return (ch1 <<< 24) + (ch2 <<< 16) + (ch3 <<< 8) + (ch4 <<< 0)

def readLong : Input (BitVec 64) := do
  let high ← readInt
  let low ← readInt
  return (high.signExtend 64 <<< 32) + (low.signExtend 64 &&& 0xFFFFFFFF#64)

/-- `bytearr[index]`, as an `int`. -/
def byteAt (bytearr : List Byte) (index : Nat) : Except Thrown (BitVec 32) :=
  match bytearr[index]? with
  | some b => .ok (b.signExtend 32)
  | none => .error .arrayIndexOutOfBounds

/-- `str[strlen++] = c`, in an array of so many characters. -/
def appendTo (utflen : Nat) (str : List JavaChar) (c : BitVec 32) : Except Thrown (List JavaChar) :=
  if str.length < utflen then .ok (str ++ [c.setWidth 16]) else .error .arrayIndexOutOfBounds

/-- The loop of `readUTF`. -/
def decodeFrom (bytearr : List Byte) (utflen : Nat) :
    Nat → Nat → List JavaChar → Except Thrown (List JavaChar)
  | 0, _, _ => .error .unfinished
  | fuel + 1, count, str =>
      if count < utflen then do
        let c := (← byteAt bytearr count) &&& 0xFF#32
        let kind := (c.sshiftRight 4).toNat
        if kind ≤ 7 then
          -- `0xxxxxxx`
          decodeFrom bytearr utflen fuel (count + 1) (← appendTo utflen str c)
        else if kind = 12 ∨ kind = 13 then
          -- `110xxxxx 10xxxxxx`
          if utflen < count + 2 then
            throw .utfDataFormat
          else
            let char2 ← byteAt bytearr (count + 2 - 1)
            if char2 &&& 0xC0#32 ≠ 0x80#32 then
              throw .utfDataFormat
            else
              decodeFrom bytearr utflen fuel (count + 2)
                (← appendTo utflen str (((c &&& 0x1F#32) <<< 6) ||| (char2 &&& 0x3F#32)))
        else if kind = 14 then
          -- `1110xxxx 10xxxxxx 10xxxxxx`
          if utflen < count + 3 then
            throw .utfDataFormat
          else
            let char2 ← byteAt bytearr (count + 3 - 2)
            let char3 ← byteAt bytearr (count + 3 - 1)
            if char2 &&& 0xC0#32 ≠ 0x80#32 ∨ char3 &&& 0xC0#32 ≠ 0x80#32 then
              throw .utfDataFormat
            else
              decodeFrom bytearr utflen fuel (count + 3)
                (← appendTo utflen str
                  (((c &&& 0x0F#32) <<< 12) ||| ((char2 &&& 0x3F#32) <<< 6) |||
                    ((char3 &&& 0x3F#32) <<< 0)))
        else
          throw .utfDataFormat
      else
        return str

def readUTF : Input JavaText := do
  let utflen := (← readUnsignedShort).toNat
  let bytearr ← readFully utflen
  match decodeFrom bytearr utflen (utflen + 1) 0 [] with
  | .ok str => newString str
  | .error thrown => throw thrown

/-! ## Sequences of values -/

/-- The types of values, other than those of floating point. -/
inductive Kind
  | boolean
  | byte
  | short
  | char
  | int
  | long
  | utf
  deriving DecidableEq, Repr

inductive Value
  | boolean (v : Bool)
  | byte (v : BitVec 8)
  | short (v : BitVec 16)
  | char (v : BitVec 16)
  | int (v : BitVec 32)
  | long (v : BitVec 64)
  | utf (v : JavaText)

def Value.kind : Value → Kind
  | .boolean _ => .boolean
  | .byte _ => .byte
  | .short _ => .short
  | .char _ => .char
  | .int _ => .int
  | .long _ => .long
  | .utf _ => .utf

/-- Writes a value by the method of its type. -/
def Value.write : Value → Output Unit
  | .boolean v => writeBoolean v
  | .byte v => writeByte (v.signExtend 32)
  | .short v => writeShort (v.signExtend 32)
  | .char v => writeChar (v.setWidth 32)
  | .int v => writeInt v
  | .long v => writeLong v
  | .utf v => do
      let _ ← writeUTF v

/-- Reads a value by the method of its type. -/
def Kind.read : Kind → Input Value
  | .boolean => return .boolean (← readBoolean)
  | .byte => return .byte (← readByte)
  | .short => return .short (← readShort)
  | .char => return .char (← readChar)
  | .int => return .int (← readInt)
  | .long => return .long (← readLong)
  | .utf => return .utf (← readUTF)

def writeAll : List Value → Output Unit
  | [] => return ⟨⟩
  | value :: rest => do
      value.write
      writeAll rest

def readAll : List Kind → Input (List Value)
  | [] => return []
  | kind :: rest => return (← kind.read) :: (← readAll rest)

end PicoJvm.Streams
