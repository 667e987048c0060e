import PicoJvm.Signatures.TypeSymbol

/-!
# Reading encoded types

`SignatureStream` and the printing of a type symbol read what the parser encoded.
-/

namespace PicoJvm.Signatures

open PicoJvm.Loading

/-- `BasicType`, as far as it occurs in signatures. -/
inductive BasicType
  | tBoolean
  | tChar
  | tFloat
  | tDouble
  | tByte
  | tShort
  | tInt
  | tLong
  | tObject
  | tArray
  | tVoid
  | tIllegal
  deriving DecidableEq, Repr

namespace BasicType

/-- `_basic_type_from_literal`. -/
def fromLiteral (chr : UInt8) : BasicType :=
  match chr.toNat with
  | 0x42 => tByte
  | 0x43 => tChar
  | 0x44 => tDouble
  | 0x46 => tFloat
  | 0x49 => tInt
  | 0x4A => tLong
  | 0x53 => tShort
  | 0x56 => tVoid
  | 0x5A => tBoolean
  | _ => tIllegal

/-- `word_size_for`. -/
def wordSize : BasicType → Nat
  | tLong | tDouble => 2
  | tVoid => 0
  | _ => 1

end BasicType

/-- The byte of an encoded type at an index. -/
def byteAt (symbol : Name) (index : Nat) : UInt8 :=
  symbol.getD index 0

/-- `TypeSymbol::size_at`. -/
def sizeAt (symbol : Name) (index : Nat) : Nat :=
  if (byteAt symbol index).toNat < 128 then 1 else 2

/-- `TypeSymbol::object_basic_type_at`. -/
def objectBasicTypeAt (state : Universe) (symbol : Name) (index : Nat) : BasicType :=
  if (state.klass (state.classFromId (decodeUshortAt symbol index))).isInstanceClass then
    .tObject
  else
    .tArray

/-! ## `SignatureStream` -/

/-- A type the stream stops at: its word index, and the class id if it is a class. -/
structure StreamItem where
  type : BasicType
  classId : Option Nat
  index : Nat
  deriving DecidableEq, Repr

/-- `SignatureStream`. -/
structure SignatureStream where
  numParamWords : Nat
  numParamWordsProcessed : Nat
  position : Nat
  wordIndex : Nat
  type : BasicType
  classId : Option Nat
  isReturnType : Bool
  deriving DecidableEq, Repr

namespace SignatureStream

variable (state : Universe) (symbol : Name) (isStatic fast : Bool)

/-- `Signature::return_type`. -/
def returnType : BasicType :=
  if (byteAt symbol 2).toNat < 0x80 then
    .fromLiteral (byteAt symbol 2)
  else if fast then
    .tObject
  else
    objectBasicTypeAt state symbol 2

/-- `SignatureStream::next`. -/
def next (stream : SignatureStream) : SignatureStream :=
  let wordIndex := stream.wordIndex + stream.type.wordSize
  if stream.numParamWordsProcessed < stream.numParamWords then
    let chr := byteAt symbol stream.position
    if chr.toNat < 0x80 then
      let type := BasicType.fromLiteral chr
      { stream with
        wordIndex
        type
        classId := none
        position := stream.position + 1
        numParamWordsProcessed := stream.numParamWordsProcessed + type.wordSize }
    else
      let type := if fast then .tObject else objectBasicTypeAt state symbol stream.position
      { stream with
        wordIndex
        type
        classId := some (decodeUshortAt symbol stream.position)
        position := stream.position + 2
        numParamWordsProcessed := stream.numParamWordsProcessed + type.wordSize }
  else
    { stream with
      wordIndex
      type := returnType state symbol fast
      classId := none
      isReturnType := true
      numParamWordsProcessed := stream.numParamWordsProcessed + 1 }

/-- The constructor: at the receiver, or at the first parameter of a static method. -/
def start : SignatureStream :=
  let stream : SignatureStream :=
    { numParamWords := decodeUshortAt symbol 0
      numParamWordsProcessed := 0
      position := 2 + sizeAt symbol 2
      wordIndex := 0
      type := if isStatic then .tVoid else .tObject
      classId := none
      isReturnType := false }
  if isStatic then next state symbol fast stream else stream

/-- `eos`. -/
def eos (stream : SignatureStream) : Bool :=
  decide (stream.numParamWordsProcessed > stream.numParamWords)

/-- The loop `for (; !ss.eos(); ss.next())`: the types it stops at, and the stream behind
it. -/
def walk (stream : SignatureStream) : Nat → List StreamItem × SignatureStream
  | 0 => ([], stream)
  | fuel + 1 =>
      if stream.eos then
        ([], stream)
      else
        let (items, last) := walk (next state symbol fast stream) fuel
        (⟨stream.type, stream.classId, stream.wordIndex⟩ :: items, last)

end SignatureStream

/-- `Signature::parameter_word_size`. -/
def parameterWordSize (symbol : Name) (isStatic : Bool) : Nat :=
  if isStatic then decodeUshortAt symbol 0 else decodeUshortAt symbol 0 + 1

/-! ## Printing -/

/-- A digit of `"0123456789abcdef"`. -/
def hexDigit (digit : Nat) : UInt8 :=
  UInt8.ofNat (if digit < 10 then 0x30 + digit else 0x57 + digit)

/-- A byte as `Symbol::print_symbol_on` prints it. -/
def printByte (byte : UInt8) : List UInt8 :=
  if byte.toNat < 128 then
    if byte.toNat = 0x5C then [0x5C, 0x5C]
    else if byte.toNat = 0x0A then [0x5C, 0x6E]
    else if byte.toNat = 0x09 then [0x5C, 0x74]
    else if 0x20 ≤ byte.toNat ∧ byte.toNat < 0x7F then [byte]
    else [0x5C, 0x78, hexDigit (byte.toNat / 16), hexDigit (byte.toNat % 16)]
  else
    [0x5C, 0x78, hexDigit (byte.toNat / 16), hexDigit (byte.toNat % 16)]

/-- `Symbol::print_symbol_on`. -/
def printSymbol (name : Name) : List UInt8 :=
  name.flatMap printByte

/-- The loop of `print_type_at` down the elements of an array class. -/
def printClass (state : Universe) : Nat → Nat → List UInt8
  | 0, _ => []
  | fuel + 1, object =>
      match (state.klass object).kind with
      | .objArrayClass element => bracket :: printClass state fuel element
      | .typeArrayClass type => [bracket, type]
      | .instanceClass _ =>
          classMark :: printSymbol ((state.klass object).name.getD []) ++ [semicolon]

/-- `TypeSymbol::print_type_at`: the text, and the size of the type. -/
def printTypeAt (state : Universe) (symbol : Name) (index : Nat) : List UInt8 × Nat :=
  if (byteAt symbol index).toNat < 128 then
    ([byteAt symbol index], 1)
  else
    (printClass state (state.objects.length + 1)
      (state.classFromId (decodeUshortAt symbol index)), 2)

/-- The loop over the parameters in `print_decoded_on`. -/
def printParameters (state : Universe) (symbol : Name) : Nat → Nat → List UInt8
  | 0, _ => []
  | fuel + 1, position =>
      if position < symbol.length then
        let (text, size) := printTypeAt state symbol position
        text ++ printParameters state symbol fuel (position + size)
      else
        []

/-- `TypeSymbol::print_decoded_on`. -/
def printDecoded (state : Universe) (symbol : Name) : List UInt8 :=
  if state.isValidFieldType symbol then
    (printTypeAt state symbol 0).1
  else
    [openParen] ++ printParameters state symbol symbol.length (2 + sizeAt symbol 2) ++
      [closeParen] ++ (printTypeAt state symbol 2).1

end PicoJvm.Signatures
