import Mathlib.Algebra.Group.Nat.Defs
import Mathlib.Tactic.Common

/-!
# Characters of one, two or three bytes

The first byte of a character says how many bytes follow it, which have a form of their own. A
character of 16 bits is encoded in the shortest form that holds it, except that zero takes two
bytes; a sequence of bytes in these forms may have longer forms than that.
-/

namespace PicoJvm.Lib.CharacterForms

abbrev Byte := BitVec 8

/-- A byte behind the first one: `10xxxxxx`. -/
def IsTail (byte : Byte) : Prop :=
  byte.toNat / 64 = 2

instance (byte : Byte) : Decidable (IsTail byte) :=
  inferInstanceAs (Decidable (byte.toNat / 64 = 2))

/-- The bytes are characters in one of the forms each. -/
inductive Encodes : List Byte → List (BitVec 16) → Prop
  | nil : Encodes [] []
  /-- `0xxxxxxx` -/
  | one {byte : Byte} {bytes : List Byte} {chars : List (BitVec 16)} :
      byte.toNat < 128 → Encodes bytes chars →
      Encodes (byte :: bytes) (BitVec.ofNat 16 byte.toNat :: chars)
  /-- `110xxxxx 10xxxxxx` -/
  | two {byte second : Byte} {bytes : List Byte} {chars : List (BitVec 16)} :
      byte.toNat / 32 = 6 → IsTail second → Encodes bytes chars →
      Encodes (byte :: second :: bytes)
        (BitVec.ofNat 16 (byte.toNat % 32 * 64 + second.toNat % 64) :: chars)
  /-- `1110xxxx 10xxxxxx 10xxxxxx` -/
  | three {byte second third : Byte} {bytes : List Byte} {chars : List (BitVec 16)} :
      byte.toNat / 16 = 14 → IsTail second → IsTail third → Encodes bytes chars →
      Encodes (byte :: second :: third :: bytes)
        (BitVec.ofNat 16
          ((byte.toNat % 16 * 64 + second.toNat % 64) * 64 + third.toNat % 64) :: chars)

/-- The bytes are well formed: they are characters. -/
def WellFormed (bytes : List Byte) : Prop :=
  ∃ chars, Encodes bytes chars

/-- The shortest form of a character, other than zero. -/
def encodeChar (char : BitVec 16) : List Byte :=
  if 1 ≤ char.toNat ∧ char.toNat < 128 then
    [BitVec.ofNat 8 char.toNat]
  else if char.toNat < 2048 then
    [BitVec.ofNat 8 (192 + char.toNat / 64), BitVec.ofNat 8 (128 + char.toNat % 64)]
  else
    [BitVec.ofNat 8 (224 + char.toNat / 4096), BitVec.ofNat 8 (128 + char.toNat / 64 % 64),
      BitVec.ofNat 8 (128 + char.toNat % 64)]

def encode (chars : List (BitVec 16)) : List Byte :=
  chars.flatMap encodeChar

/-! ## What is encoded is well formed -/

theorem isTail_ofNat
    {bits : Nat}
    (small : bits < 64) :
    IsTail (BitVec.ofNat 8 (128 + bits)) := by
  rw [IsTail, BitVec.toNat_ofNat]
  omega

theorem encodes_encodeChar_append
    (char : BitVec 16)
    {bytes : List Byte} {chars : List (BitVec 16)}
    (encodes : Encodes bytes chars) :
    Encodes (encodeChar char ++ bytes) (char :: chars) := by
  have small := char.isLt
  unfold encodeChar
  split
  case isTrue ascii =>
    have same : BitVec.ofNat 16 (BitVec.ofNat 8 char.toNat).toNat = char := by
      apply BitVec.eq_of_toNat_eq
      rw [BitVec.toNat_ofNat, BitVec.toNat_ofNat]
      omega
    have one := @Encodes.one (BitVec.ofNat 8 char.toNat) bytes chars
      (by rw [BitVec.toNat_ofNat]; omega) encodes
    rwa [same] at one
  case isFalse notAscii =>
    split
    case isTrue short =>
      have two := @Encodes.two (BitVec.ofNat 8 (192 + char.toNat / 64))
        (BitVec.ofNat 8 (128 + char.toNat % 64)) bytes chars (by rw [BitVec.toNat_ofNat]; omega)
        (isTail_ofNat (by omega)) encodes
      have same : BitVec.ofNat 16 ((BitVec.ofNat 8 (192 + char.toNat / 64)).toNat % 32 * 64 +
          (BitVec.ofNat 8 (128 + char.toNat % 64)).toNat % 64) = char := by
        apply BitVec.eq_of_toNat_eq
        rw [BitVec.toNat_ofNat, BitVec.toNat_ofNat, BitVec.toNat_ofNat]
        omega
      rwa [same] at two
    case isFalse long =>
      have three := @Encodes.three (BitVec.ofNat 8 (224 + char.toNat / 4096))
        (BitVec.ofNat 8 (128 + char.toNat / 64 % 64)) (BitVec.ofNat 8 (128 + char.toNat % 64))
        bytes chars (by rw [BitVec.toNat_ofNat]; omega) (isTail_ofNat (by omega))
        (isTail_ofNat (by omega)) encodes
      have same : BitVec.ofNat 16 (((BitVec.ofNat 8 (224 + char.toNat / 4096)).toNat % 16 * 64 +
          (BitVec.ofNat 8 (128 + char.toNat / 64 % 64)).toNat % 64) * 64 +
            (BitVec.ofNat 8 (128 + char.toNat % 64)).toNat % 64) = char := by
        apply BitVec.eq_of_toNat_eq
        rw [BitVec.toNat_ofNat, BitVec.toNat_ofNat, BitVec.toNat_ofNat, BitVec.toNat_ofNat]
        omega
      rwa [same] at three

/-- Encoded characters are characters. -/
theorem encodes_encode (chars : List (BitVec 16)) : Encodes (encode chars) chars := by
  induction chars with
  | nil =>
      exact .nil
  | cons char chars inductionHypothesis =>
      rw [encode, List.flatMap_cons]
      exact encodes_encodeChar_append char inductionHypothesis

/-! ## The first byte tells the form -/

theorem encodes_one_iff
    {byte : Byte} {bytes : List Byte} {chars : List (BitVec 16)}
    (form : byte.toNat < 128) :
    Encodes (byte :: bytes) chars ↔
      ∃ rest, Encodes bytes rest ∧ chars = BitVec.ofNat 16 byte.toNat :: rest := by
  constructor
  · intro encodes
    cases encodes with
    | one _ encodes =>
        exact ⟨_, encodes, rfl⟩
    | two other | three other =>
        omega
  · rintro ⟨rest, encodes, rfl⟩
    exact .one form encodes

theorem encodes_two_iff
    {byte second : Byte} {bytes : List Byte} {chars : List (BitVec 16)}
    (form : byte.toNat / 32 = 6)
    (tail : IsTail second) :
    Encodes (byte :: second :: bytes) chars ↔
      ∃ rest, Encodes bytes rest ∧
        chars = BitVec.ofNat 16 (byte.toNat % 32 * 64 + second.toNat % 64) :: rest := by
  constructor
  · intro encodes
    cases encodes with
    | one other | three other =>
        omega
    | two _ _ encodes =>
        exact ⟨_, encodes, rfl⟩
  · rintro ⟨rest, encodes, rfl⟩
    exact .two form tail encodes

theorem encodes_three_iff
    {byte second third : Byte} {bytes : List Byte} {chars : List (BitVec 16)}
    (form : byte.toNat / 16 = 14)
    (tail : IsTail second)
    (tail' : IsTail third) :
    Encodes (byte :: second :: third :: bytes) chars ↔
      ∃ rest, Encodes bytes rest ∧
        chars = BitVec.ofNat 16
          ((byte.toNat % 16 * 64 + second.toNat % 64) * 64 + third.toNat % 64) :: rest := by
  constructor
  · intro encodes
    cases encodes with
    | one other | two other =>
        omega
    | three _ _ _ encodes =>
        exact ⟨_, encodes, rfl⟩
  · rintro ⟨rest, encodes, rfl⟩
    exact .three form tail tail' encodes

/-- A first byte of two that is not followed by a byte behind it. -/
theorem not_wellFormed_two
    {byte : Byte} {bytes : List Byte}
    (form : byte.toNat / 32 = 6)
    (noTail : ∀ second ∈ bytes.head?, ¬ IsTail second) :
    ¬ WellFormed (byte :: bytes) := by
  intro formed
  obtain ⟨chars, encodes⟩ := formed
  cases encodes with
  | one other | three other =>
      omega
  | two _ tail =>
      exact noTail _ rfl tail

/-- A first byte of three that is not followed by two bytes behind it. -/
theorem not_wellFormed_three
    {byte : Byte} {bytes : List Byte}
    (form : byte.toNat / 16 = 14)
    (noTails : ∀ second third rest, bytes = second :: third :: rest →
      ¬ (IsTail second ∧ IsTail third)) :
    ¬ WellFormed (byte :: bytes) := by
  intro formed
  obtain ⟨chars, encodes⟩ := formed
  cases encodes with
  | one other | two other =>
      omega
  | three _ tail tail' =>
      exact noTails _ _ _ rfl ⟨tail, tail'⟩

/-- A byte that no character starts with. -/
theorem not_wellFormed_other
    {byte : Byte} {bytes : List Byte}
    (notOne : ¬ byte.toNat < 128)
    (notTwo : byte.toNat / 32 ≠ 6)
    (notThree : byte.toNat / 16 ≠ 14) :
    ¬ WellFormed (byte :: bytes) := by
  intro formed
  obtain ⟨chars, encodes⟩ := formed
  cases encodes with
  | one form =>
      exact notOne form
  | two form =>
      exact notTwo form
  | three form =>
      exact notThree form

/-- A character takes a byte at least. -/
theorem Encodes.length_le
    {bytes : List Byte} {chars : List (BitVec 16)}
    (encodes : Encodes bytes chars) :
    chars.length ≤ bytes.length := by
  induction encodes with
  | nil =>
      exact Nat.le_refl _
  | one _ _ inductionHypothesis | two _ _ _ inductionHypothesis
  | three _ _ _ _ inductionHypothesis =>
      simp only [List.length_cons]
      omega

/-- Bytes are the characters of one text at most. -/
theorem Encodes.unique
    {bytes : List Byte} {chars chars' : List (BitVec 16)}
    (encodes : Encodes bytes chars)
    (encodes' : Encodes bytes chars') :
    chars = chars' := by
  induction encodes generalizing chars' with
  | nil =>
      cases encodes'
      rfl
  | one form _ inductionHypothesis =>
      obtain ⟨rest, more, isChars⟩ := (encodes_one_iff form).mp encodes'
      rw [isChars, inductionHypothesis more]
  | two form tail _ inductionHypothesis =>
      obtain ⟨rest, more, isChars⟩ := (encodes_two_iff form tail).mp encodes'
      rw [isChars, inductionHypothesis more]
  | three form tail tail' _ inductionHypothesis =>
      obtain ⟨rest, more, isChars⟩ := (encodes_three_iff form tail tail').mp encodes'
      rw [isChars, inductionHypothesis more]

end PicoJvm.Lib.CharacterForms
