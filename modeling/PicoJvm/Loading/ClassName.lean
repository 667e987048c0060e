import PicoJvm.Loading.Universe

/-!
# Class names

Identifiers are letters and digits, where every character outside ASCII passes for
a letter. A class name is a list of identifiers with slashes between them, or the
encoded type of an array.
-/

namespace PicoJvm.Loading

/-! ## Characters -/

/-- `letter_digit_table`: 1 for a letter, 2 for a digit. -/
def letterDigitTable (chr : Nat) : Nat :=
  if 0x30 ≤ chr ∧ chr ≤ 0x39 then
    2
  else if (0x41 ≤ chr ∧ chr ≤ 0x5A) ∨ (0x61 ≤ chr ∧ chr ≤ 0x7A) ∨ chr = 0x5F ∨ chr = 0x24 then
    1
  else
    0

/-- `is_letter`. -/
def isLetter (chr : Nat) : Bool :=
  decide (chr > 127 ∨ letterDigitTable chr = 1)

/-- `is_letter_or_digit`. -/
def isLetterOrDigit (chr : Nat) : Bool :=
  decide (chr > 127 ∨ letterDigitTable chr ≠ 0)

/-- The code of `/`. -/
def slash : UInt8 := 0x2F

/-- `UTF8Stream::get_next_jchar_from_utf8`: the index behind the character, and the
character. -/
def getNextJcharFromUtf8 (name : Name) (index : Nat) : Option (Nat × Nat) :=
  match name[index]? with
  | none => none
  | some first =>
      let chr1 := first.toNat
      if chr1 = 0 then
        none
      else if chr1 < 128 then
        some (index + 1, chr1)
      else if chr1 / 16 = 0xC ∨ chr1 / 16 = 0xD then
        match name[index + 1]? with
        | none => none
        | some second =>
            if second.toNat / 64 = 2 then
              some (index + 2, chr1 % 32 * 64 + second.toNat % 64)
            else
              none
      else if chr1 / 16 = 0xE then
        match name[index + 1]?, name[index + 2]? with
        | some second, some third =>
            if second.toNat / 64 = 2 then
              if third.toNat / 64 = 2 then
                some (index + 3,
                  (chr1 % 16 * 64 + second.toNat % 64) * 64 + third.toNat % 64)
              else
                -- a form of two bytes, taken for what it says
                some (index + 2, chr1 % 16 * 64 + second.toNat % 64)
            else
              none
        | _, _ => none
      else
        none

/-! ## Identifiers -/

/-- Bytes the quick scan leaves to the slow one. -/
def suspicious (chr : UInt8) : Bool :=
  decide (chr.toNat > 127 ∨ chr.toNat = 0)

/-- The loop behind `slow_path`. -/
def skipLettersAndDigits (name : Name) : Nat → Nat → Nat
  | 0, position => position
  | fuel + 1, position =>
      if position < name.length then
        match getNextJcharFromUtf8 name position with
        | none => position
        | some (next, chr) =>
            if isLetterOrDigit chr then skipLettersAndDigits name fuel next else position
      else
        position

/-- `skip_simple_identifier` from `slow_path` on. -/
def skipSimpleIdentifierSlow (name : Name) (position : Nat) : Option Nat :=
  match getNextJcharFromUtf8 name position with
  | none => none
  | some (next, chr) =>
      if isLetter chr then some (skipLettersAndDigits name name.length next) else none

/-- `Signature::skip_simple_identifier`: the position behind the identifier that starts at
a position. -/
def skipSimpleIdentifier (name : Name) (position : Nat) : Option Nat :=
  if (name.take position).any suspicious then
    skipSimpleIdentifierSlow name position
  else
    match name.drop position with
    | [] => none
    | chr :: rest =>
        if suspicious chr then
          skipSimpleIdentifierSlow name position
        else if letterDigitTable chr.toNat ≠ 1 then
          none
        else
          let identifier := rest.takeWhile fun chr =>
            !suspicious chr && decide (letterDigitTable chr.toNat ≠ 0)
          match rest.drop identifier.length with
          | [] => some (position + 1 + identifier.length)
          | chr :: _ =>
              if suspicious chr then
                skipSimpleIdentifierSlow name position
              else
                some (position + 1 + identifier.length)

/-- `Signature::is_class_identifier_quick`: `first` in front of the letter an identifier
starts with. -/
def isClassIdentifierQuick (first : Bool) : Name → Bool
  | [] => true
  | chr :: rest =>
      if chr.toNat > 127 then
        false
      else if first then
        decide (letterDigitTable chr.toNat = 1) && isClassIdentifierQuick false rest
      else if letterDigitTable chr.toNat ≠ 0 then
        isClassIdentifierQuick false rest
      else
        decide (chr = slash) && isClassIdentifierQuick true rest

/-- `Signature::skip_class_identifier`. -/
def skipClassIdentifier (name : Name) : Nat → Nat → Option Nat
  | 0, _ => none
  | fuel + 1, position =>
      match skipSimpleIdentifier name position with
      | none => none
      | some next =>
          if next ≥ name.length then
            some next
          else if name.getD next 0 ≠ slash then
            some next
          else
            skipClassIdentifier name fuel (next + 1)

/-- What `is_valid_class_name` accepts besides types. -/
def isClassIdentifier (name : Name) : Bool :=
  isClassIdentifierQuick true name ||
    decide (skipClassIdentifier name (name.length + 1) 0 = some name.length)

/-! ## Names of types -/

/-- `simple_type_symbol_table`, the places of the array classes from one on. -/
def simpleTypeSymbolTable (chr : UInt8) : Nat :=
  match chr.toNat with
  | 0x42 => 5  -- B
  | 0x43 => 2  -- C
  | 0x44 => 4  -- D
  | 0x46 => 3  -- F
  | 0x49 => 7  -- I
  | 0x4A => 8  -- J
  | 0x53 => 6  -- S
  | 0x5A => 1  -- Z
  | _ => 0

/-- `is_simple_type_symbol`. -/
def isSimpleTypeSymbol (chr : UInt8) : Bool :=
  decide (simpleTypeSymbolTable chr ≠ 0)

namespace Universe

variable (state : Universe)

/-- `Symbol::is_valid_field_type`. -/
def isValidFieldType (name : Name) : Bool :=
  decide (state.nears.lookup name = some .fieldType) ||
    decide (name.length = 1) && isSimpleTypeSymbol (name.getD 0 0)

/-- `FieldType::basic_type` is `T_ARRAY`. -/
def isArrayType (name : Name) : Bool :=
  decide (name.length ≠ 1) &&
    !(state.klass (state.classFromId (decodeUshortAt name 0))).isInstanceClass

/-- `Symbol::is_valid_class_name`. -/
def isValidClassName (name : Name) : Bool :=
  if isClassIdentifierQuick true name then
    true
  else if state.isValidFieldType name then
    if name.length = 1 then true else state.isArrayType name
  else
    decide (skipClassIdentifier name (name.length + 1) 0 = some name.length)

/-- `TypeSymbol::array_class_for_encoded_name`. -/
def arrayClassForEncodedName (name : Name) : Option Nat :=
  if state.isValidFieldType name && state.isArrayType name then
    some (state.classFromId (decodeUshortAt name 0))
  else
    none

end Universe

end PicoJvm.Loading
