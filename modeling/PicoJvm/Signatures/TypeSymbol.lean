import PicoJvm.Loading.SystemDictionary

/-!
# `TypeSymbol`

Field and method descriptors are parsed into encoded types: a byte for a basic type,
two bytes with a class id for a class. A method signature starts with the words of
its parameters and its return type. The stream over a signature and the printing of
one read the encoded form.
-/

namespace PicoJvm.Signatures

open PicoJvm.Loading

/-! ## Characters of descriptors -/

def openParen : UInt8 := 0x28
def closeParen : UInt8 := 0x29
def semicolon : UInt8 := 0x3B
def bracket : UInt8 := 0x5B
def classMark : UInt8 := 0x4C
def voidMark : UInt8 := 0x56
def longMark : UInt8 := 0x4A
def doubleMark : UInt8 := 0x44

/-- A digit of an optional size. -/
def isDigit (chr : UInt8) : Bool :=
  decide (0x30 ≤ chr.toNat ∧ chr.toNat ≤ 0x39)

/-! ## Parsing -/

/-- `TypeSymbol::ParseStream`; `rest` is the input from the current position on. -/
structure ParseStream where
  rest : List UInt8
  isMethodSignature : Bool
  tokenCount : Nat
  tokenWordCount : Nat
  parameterWordCount : Nat
  closeParenPosition : Int
  deriving DecidableEq, Repr

namespace ParseStream

/-- `initialize`. The input has at least one character. -/
def initializeStream (input : List UInt8) : Operation ParseStream :=
  let start : ParseStream :=
    { rest := input, isMethodSignature := false, tokenCount := 0, tokenWordCount := 0,
      parameterWordCount := 0, closeParenPosition := -1 }
  match input with
  | [] => throw .readPastEnd
  | chr :: rest =>
      if chr = openParen then
        if input.length ≥ 3 then
          return { start with rest, isMethodSignature := true }
        else
          throw .classFormatError
      else
        return start

/-- The loop of `get_class`: what stands in front of the semicolon, and what stands
behind it. -/
def splitClassName : List UInt8 → Option (Name × List UInt8)
  | [] => none
  | chr :: rest =>
      if chr = semicolon then
        some ([], rest)
      else
        match splitClassName rest with
        | none => none
        | some (name, behind) => some (chr :: name, behind)

/-- `get_class`. -/
def getClass (stream : ParseStream) : Operation (Nat × ParseStream) :=
  match splitClassName stream.rest with
  | none => throw .classFormatError
  | some (name, behind) => do
      let className ← symbolFor name
      let state ← get
      if state.isValidClassName className then
        let klass ← semiResolve className
        return (klass, { stream with rest := behind })
      else
        throw .classFormatError

/-- `get_array_class` with dimensions already read, behind an opening bracket. -/
def getArrayClass (stream : ParseStream) (dimension : Nat) :
    Nat → Operation (Nat × ParseStream)
  | 0 => throw .classFormatError
  | fuel + 1 =>
      -- `skip_optional_size`
      match stream.rest.dropWhile isDigit with
      | [] => throw .classFormatError
      | byte :: rest =>
          if byte = classMark then do
            let (klass, stream) ← getClass { stream with rest }
            let array ← Loading.getArrayClass klass dimension
            return (array, stream)
          else if byte = bracket then
            getArrayClass { stream with rest } (dimension + 1) fuel
          else if isSimpleTypeSymbol byte then do
            let state ← get
            let klass := state.typeArrayClasses.getD (simpleTypeSymbolTable byte - 1) 0
            let array ← getArrayClassOfArray klass dimension
            return (array, { stream with rest })
          else
            throw .classFormatError

/-- `next` behind a closing parenthesis, if there was one: the type that starts with a
character, as `next` returns it. -/
def nextType (stream : ParseStream) (byte : UInt8) : Operation (List UInt8 × ParseStream) :=
  let words := if byte = longMark ∨ byte = doubleMark then 2 else 1
  let stream :=
    { stream with
      tokenCount := stream.tokenCount + 1
      tokenWordCount := stream.tokenWordCount + words }
  if byte = voidMark ∨ isSimpleTypeSymbol byte then
    return ([byte], stream)
  else if byte = classMark then do
    let (klass, stream) ← stream.getClass
    let state ← get
    return (encodeUshort (state.klass klass).classId, stream)
  else if byte = bracket then do
    let (klass, stream) ← stream.getArrayClass 1 255
    let state ← get
    return (encodeUshort (state.klass klass).classId, stream)
  else
    throw .classFormatError

/-- `next`: the bytes of the type that comes next, and nothing at the end. -/
def next (stream : ParseStream) : Operation (Option (List UInt8) × ParseStream) :=
  match stream.rest with
  | [] => return (none, stream)
  | byte :: rest =>
      if byte = closeParen then
        if stream.closeParenPosition = -1 then
          match rest with
          | [] => throw .readPastEnd
          | byte :: rest => do
              let (type, stream) ← nextType
                { stream with
                  rest
                  closeParenPosition := stream.tokenCount
                  parameterWordCount := stream.tokenWordCount } byte
              return (some type, stream)
        else
          throw .classFormatError
      else do
        let (type, stream) ← nextType { stream with rest } byte
        return (some type, stream)

/-- `is_valid_method_signature`. -/
def isValidMethodSignature (stream : ParseStream) : Bool :=
  decide ((stream.tokenCount : Int) = stream.closeParenPosition + 1)

end ParseStream

/-- The number of bytes of types the buffer takes: `out_pos_limit` is that many behind
`out_pos`, and is not reached. -/
def bufferLimit : Nat := 256 * 2

/-- The loop of `internal_parse`: the bytes of the types read so far, and of the last. -/
def parseTypes (stream : ParseStream) (buffer lastType : List UInt8) :
    Nat → Operation (List UInt8 × List UInt8 × ParseStream)
  | 0 => throw .unfinished
  | fuel + 1 => do
      let (type, stream) ← stream.next
      match type with
      | none => return (buffer, lastType, stream)
      | some type =>
          if (buffer ++ type).length < bufferLimit then
            parseTypes stream (buffer ++ type) type fuel
          else
            throw .classFormatError

/-- `parse_simple_field_type`. -/
def parseSimpleFieldType (chr : UInt8) : Operation Name :=
  if isSimpleTypeSymbol chr then
    typeSymbolFor [chr] .fieldType
  else
    throw .classFormatError

/-- `TypeSymbol::internal_parse` on a string of more than one character. -/
def parseLong (input : List UInt8) : Operation Name := do
  let stream ← ParseStream.initializeStream input
  let (buffer, lastType, stream) ← parseTypes stream [] [] (input.length + 1)
  if stream.isMethodSignature then
    if stream.isValidMethodSignature ∧ stream.parameterWordCount ≤ 255 then
      typeSymbolFor (encodeUshort stream.parameterWordCount ++ lastType ++
        buffer.take (buffer.length - lastType.length)) .methodSignature
    else
      throw .classFormatError
  else if stream.tokenCount = 1 ∧ lastType ≠ [voidMark] then
    typeSymbolFor buffer .fieldType
  else
    throw .classFormatError

/-- `TypeSymbol::parse`. -/
def parse (input : List UInt8) : Operation Name :=
  match input with
  | [] => throw .classFormatError
  | [chr] => parseSimpleFieldType chr
  | _ => parseLong input

end PicoJvm.Signatures
