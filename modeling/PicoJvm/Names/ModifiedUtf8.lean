import Mathlib.Algebra.Group.Nat.Defs
import Mathlib.Data.List.Basic
import PicoJvm.Lib.Fallible

/-!
# Modified UTF-8

The stream over the bytes of a string, the encoding of characters, and the check of the strings of
a class file. The stream is a window of a buffer: an access to a byte outside the window is a fault
of its own, apart from the error the stream reports.
-/

namespace PicoJvm.Names

open PicoJvm.Lib.Fallible

/-! ## The stream -/

/-- A `UTF8Stream` over a part of a buffer. -/
structure Utf8Stream where
  buffer : List UInt8
  start : Nat
  length : Nat
  fits : start + length ≤ buffer.length

/-- `UTF8_ERROR`, a byte read outside the string, and a loop that does not end. -/
inductive StreamFault
  | utf8Error
  | outsideString
  | unfinished
  deriving DecidableEq, Repr

/-- `10xxxxxx`. -/
def IsContinuation (byte : UInt8) : Prop :=
  byte.toNat / 64 = 2

instance (byte : UInt8) : Decidable (IsContinuation byte) :=
  inferInstanceAs (Decidable (byte.toNat / 64 = 2))

namespace Utf8Stream

/-- The index behind the last byte. -/
def stop (stream : Utf8Stream) : Nat :=
  stream.start + stream.length

/-- The bytes of the string. -/
def window (stream : Utf8Stream) : List UInt8 :=
  (stream.buffer.drop stream.start).take stream.length

/-- Bytes within others. -/
def within (before bytes after : List UInt8) : Utf8Stream where
  buffer := before ++ bytes ++ after
  start := before.length
  length := bytes.length
  fits := by simp

/-- `byte_at`. -/
def byteAt (stream : Utf8Stream) (index : Nat) : Except StreamFault UInt8 :=
  if stream.start ≤ index ∧ index < stream.stop then
    .ok (stream.buffer.getD index 0)
  else
    .error .outsideString

/-- `get_next_jchar_slow`, behind the first byte. -/
def getNextJcharSlow (stream : Utf8Stream) (index chr1 : Nat) : Except StreamFault (Nat × Nat) :=
  if chr1 / 16 = 0xC ∨ chr1 / 16 = 0xD then
    if index < stream.stop then do
      let chr2 ← stream.byteAt index
      if IsContinuation chr2 then
        return (index + 1, chr1 % 32 * 64 + chr2.toNat % 64)
      else
        throw .utf8Error
    else
      throw .utf8Error
  else if chr1 / 16 = 0xE then
    if index < stream.stop then do
      let chr2 ← stream.byteAt index
      if IsContinuation chr2 ∧ index + 1 < stream.stop then do
        let chr3 ← stream.byteAt (index + 1)
        if IsContinuation chr3 then
          return (index + 2, (chr1 % 16 * 64 + chr2.toNat % 64) * 64 + chr3.toNat % 64)
        else
          -- the third byte is left for the next character
          return (index + 1, chr1 % 16 * 64 + chr2.toNat % 64)
      else
        throw .utf8Error
    else
      throw .utf8Error
  else
    throw .utf8Error

/-- `get_next_jchar_from_utf8`: the index behind the character, and the character. -/
def getNextJcharFromUtf8 (stream : Utf8Stream) (index : Nat) : Except StreamFault (Nat × Nat) :=
  if index < stream.start ∨ index ≥ stream.stop then
    throw .utf8Error
  else do
    let chr1 ← stream.byteAt index
    if chr1.toNat = 0 then
      throw .utf8Error
    else if chr1.toNat ≥ 128 then
      stream.getNextJcharSlow (index + 1) chr1.toNat
    else
      return (index + 1, chr1.toNat)

/-- The loop of `length()`. -/
def lengthFrom (stream : Utf8Stream) : Nat → Nat → Nat → Except StreamFault Nat
  | 0, _, _ => .error .unfinished
  | fuel + 1, index, result =>
      if index < stream.stop then do
        let (next, _) ← stream.getNextJcharFromUtf8 index
        stream.lengthFrom fuel next (result + 1)
      else
        .ok result

/-- `length()`: how many characters there are. -/
def characterCount (stream : Utf8Stream) : Except StreamFault Nat :=
  stream.lengthFrom (stream.length + 1) stream.start 0

/-- `is_valid`. -/
def isValid (stream : Utf8Stream) : Except StreamFault Bool :=
  match stream.characterCount with
  | .ok _ => .ok true
  | .error .utf8Error => .ok false
  | .error fault => .error fault

/-- `raw_read`, which makes progress somehow when there is no character. -/
def rawRead (stream : Utf8Stream) (index : Nat) : Except StreamFault (Nat × Nat) :=
  match stream.getNextJcharFromUtf8 index with
  | .ok found => .ok found
  | .error .utf8Error => .ok (index + 1, 0)
  | .error fault => .error fault

/-- Some calls of `raw_read`: the index behind the last character, and the characters. -/
def rawReads (stream : Utf8Stream) : Nat → Nat → Except StreamFault (Nat × List Nat)
  | 0, index => .ok (index, [])
  | count + 1, index => do
      let (next, chr) ← stream.rawRead index
      let (last, chrs) ← stream.rawReads count next
      return (last, chr :: chrs)

/-- The characters of the string are read, as many as `length()` says. -/
def decode (stream : Utf8Stream) : Except StreamFault (Nat × List Nat) := do
  let count ← stream.characterCount
  stream.rawReads count stream.start

end Utf8Stream

/-- `is_valid_utf8_in_buffer`: bytes that are all positive need no second look. -/
def isValidUtf8InBuffer (buffer : List UInt8) (position utf8Length : Nat) :
    Except StreamFault Bool :=
  if fits : position + utf8Length ≤ buffer.length then
    if ((buffer.drop position).take utf8Length).all fun byte => 0 < byte.toNat ∧ byte.toNat < 128 then
      .ok true
    else
      Utf8Stream.isValid ⟨buffer, position, utf8Length, fits⟩
  else
    .ok false

/-- `put_unicode_char`. -/
def putUnicodeChar (chr : UInt16) : List UInt8 :=
  if chr.toNat ≠ 0 ∧ chr.toNat ≤ 0x7F then
    [UInt8.ofNat chr.toNat]
  else if chr.toNat ≤ 0x7FF then
    [UInt8.ofNat (chr.toNat >>> 6 ||| 0xC0), UInt8.ofNat (chr.toNat &&& 0x3F ||| 0x80)]
  else
    [UInt8.ofNat (chr.toNat >>> 12 ||| 0xE0), UInt8.ofNat (chr.toNat >>> 6 &&& 0x3F ||| 0x80),
      UInt8.ofNat (chr.toNat &&& 0x3F ||| 0x80)]

/-! ## Forms of characters -/

/-- One, two and three bytes for a character. -/
inductive Form : List UInt8 → Prop
  | one {first : UInt8} : 0 < first.toNat → first.toNat < 128 → Form [first]
  | two {first second : UInt8} :
      first.toNat / 32 = 6 → IsContinuation second → Form [first, second]
  | three {first second third : UInt8} :
      first.toNat / 16 = 0xE → IsContinuation second → IsContinuation third →
      Form [first, second, third]

/-- Well-formed modified UTF-8. -/
inductive WellFormed : List UInt8 → Prop
  | nil : WellFormed []
  | cons {form rest : List UInt8} : Form form → WellFormed rest → WellFormed (form ++ rest)

/-- What is let through: two bytes of a form of three stand for a character when a byte follows
that is no third one. -/
inductive Accepted : List UInt8 → Prop
  | nil : Accepted []
  | cons {form rest : List UInt8} : Form form → Accepted rest → Accepted (form ++ rest)
  | short {first second third : UInt8} {rest : List UInt8} :
      first.toNat / 16 = 0xE → IsContinuation second → ¬ IsContinuation third →
      Accepted (third :: rest) → Accepted (first :: second :: third :: rest)

theorem WellFormed.accepted
    {bytes : List UInt8}
    (wellFormed : WellFormed bytes) :
    Accepted bytes := by
  induction wellFormed with
  | nil =>
      exact .nil
  | cons isForm _ inductionHypothesis =>
      exact .cons isForm inductionHypothesis

/-- The character of a form of two bytes, behind the first one. -/
def twoBytesJchar (chr1 : Nat) : List UInt8 → Option (Nat × List UInt8)
  | [] => none
  | chr2 :: rest =>
      if IsContinuation chr2 then some (chr1 % 32 * 64 + chr2.toNat % 64, rest) else none

/-- The character of a form of three bytes, behind the first one. -/
def threeBytesJchar (chr1 : Nat) : List UInt8 → Option (Nat × List UInt8)
  | [] => none
  | [_] => none
  | chr2 :: chr3 :: rest =>
      if IsContinuation chr2 then
        if IsContinuation chr3 then
          some ((chr1 % 16 * 64 + chr2.toNat % 64) * 64 + chr3.toNat % 64, rest)
        else
          some (chr1 % 16 * 64 + chr2.toNat % 64, chr3 :: rest)
      else
        none

/-- The first character of some bytes, and the bytes behind it. -/
def nextJchar : List UInt8 → Option (Nat × List UInt8)
  | [] => none
  | chr1 :: rest =>
      if chr1.toNat = 0 then
        none
      else if chr1.toNat < 128 then
        some (chr1.toNat, rest)
      else if chr1.toNat / 32 = 6 then
        twoBytesJchar chr1.toNat rest
      else if chr1.toNat / 16 = 0xE then
        threeBytesJchar chr1.toNat rest
      else
        none

/-- The characters some bytes stand for. -/
inductive Decodes : List UInt8 → List Nat → Prop
  | nil : Decodes [] []
  | cons {bytes rest : List UInt8} {chr : Nat} {chrs : List Nat} :
      nextJchar bytes = some (chr, rest) → Decodes rest chrs → Decodes bytes (chr :: chrs)

theorem Decodes.unique
    {bytes : List UInt8}
    {chrs chrs' : List Nat}
    (decodes : Decodes bytes chrs)
    (decodes' : Decodes bytes chrs') :
    chrs = chrs' := by
  induction decodes generalizing chrs' with
  | nil =>
      cases decodes' with
      | nil => rfl
      | cons found' _ => cases found'
  | cons found _ inductionHypothesis =>
      cases decodes' with
      | nil => cases found
      | cons found' behind =>
          rw [found] at found'
          cases found'
          rw [inductionHypothesis behind]

/-- Characters have 16 bits. -/
theorem nextJchar_bound
    {bytes rest : List UInt8}
    {chr : Nat}
    (found : nextJchar bytes = some (chr, rest)) :
    chr < 65536 := by
  unfold nextJchar twoBytesJchar threeBytesJchar at found
  grind

theorem Decodes.bound
    {bytes : List UInt8}
    {chrs : List Nat}
    (decodes : Decodes bytes chrs) :
    ∀ chr ∈ chrs, chr < 65536 := by
  induction decodes with
  | nil =>
      exact List.forall_mem_nil _
  | cons found _ areBounded =>
      exact List.forall_mem_cons.mpr ⟨nextJchar_bound found, areBounded⟩

theorem nextJchar_lt
    {bytes rest : List UInt8}
    {chr : Nat}
    (found : nextJchar bytes = some (chr, rest)) :
    rest.length < bytes.length := by
  unfold nextJchar twoBytesJchar threeBytesJchar at found
  grind

theorem nextJchar_form
    {form : List UInt8}
    (isForm : Form form)
    (rest : List UInt8) :
    ∃ chr, nextJchar (form ++ rest) = some (chr, rest) := by
  cases isForm with
  | one positive small =>
      simp [nextJchar, small]
      omega
  | two isFirst isSecond =>
      have notZero : ∀ n : Nat, n / 32 = 6 → ¬ n = 0 ∧ ¬ n < 128 := by omega
      simp [nextJchar, twoBytesJchar, notZero _ isFirst, isFirst, isSecond]
  | three isFirst isSecond isThird =>
      have notOther : ∀ n : Nat, n / 16 = 0xE → ¬ n = 0 ∧ ¬ n < 128 ∧ ¬ n / 32 = 6 := by omega
      simp [nextJchar, threeBytesJchar, notOther _ isFirst, isFirst, isSecond, isThird]

theorem nextJchar_short
    {first second third : UInt8}
    (isFirst : first.toNat / 16 = 0xE)
    (isSecond : IsContinuation second)
    (notThird : ¬ IsContinuation third)
    (rest : List UInt8) :
    ∃ chr, nextJchar (first :: second :: third :: rest) = some (chr, third :: rest) := by
  have notOther : ∀ n : Nat, n / 16 = 0xE → ¬ n = 0 ∧ ¬ n < 128 ∧ ¬ n / 32 = 6 := by omega
  simp [nextJchar, threeBytesJchar, notOther _ isFirst, isFirst, isSecond, notThird]

theorem Accepted.of_nextJchar
    {bytes rest : List UInt8}
    {chr : Nat}
    (found : nextJchar bytes = some (chr, rest))
    (accepted : Accepted rest) :
    Accepted bytes := by
  cases bytes with
  | nil =>
      cases found
  | cons chr1 others =>
      rw [nextJchar] at found
      split at found
      · cases found
      · split at found
        · next notZero small =>
            cases found
            exact .cons (.one (Nat.pos_of_ne_zero notZero) small) accepted
        · split at found
          · next isFirst =>
              cases others with
              | nil =>
                  cases found
              | cons chr2 others =>
                  rw [twoBytesJchar] at found
                  split at found
                  · next isSecond =>
                      cases found
                      exact .cons (.two isFirst isSecond) accepted
                  · cases found
          · split at found
            · next isFirst =>
                obtain ⟨chr2, chr3, behind, isOthers⟩ :
                    ∃ chr2 chr3 behind, others = chr2 :: chr3 :: behind := by
                  cases others with
                  | nil => cases found
                  | cons chr2 others =>
                      cases others with
                      | nil => cases found
                      | cons chr3 behind => exact ⟨chr2, chr3, behind, rfl⟩
                rw [isOthers] at found ⊢
                rw [threeBytesJchar] at found
                split at found
                · next isSecond =>
                    split at found
                    · next isThird =>
                        cases found
                        exact .cons (.three isFirst isSecond isThird) accepted
                    · next notThird =>
                        cases found
                        exact .short isFirst isSecond notThird accepted
                · cases found
            · cases found

/-- What is let through is what can be decoded. -/
theorem accepted_iff_exists_decodes
    {bytes : List UInt8} :
    Accepted bytes ↔ ∃ chrs, Decodes bytes chrs := by
  constructor
  · intro accepted
    induction accepted with
    | nil =>
        exact ⟨[], .nil⟩
    | cons isForm _ inductionHypothesis =>
        obtain ⟨chrs, decodes⟩ := inductionHypothesis
        obtain ⟨chr, found⟩ := nextJchar_form isForm _
        exact ⟨chr :: chrs, .cons found decodes⟩
    | short isFirst isSecond notThird _ inductionHypothesis =>
        obtain ⟨chrs, decodes⟩ := inductionHypothesis
        obtain ⟨chr, found⟩ := nextJchar_short isFirst isSecond notThird _
        exact ⟨chr :: chrs, .cons found decodes⟩
  · rintro ⟨chrs, decodes⟩
    induction decodes with
    | nil =>
        exact .nil
    | cons found _ accepted =>
        exact .of_nextJchar found accepted

/-! ## Characters encoded -/

theorem ofNat_or_toNat
    (low high shift : Nat)
    (lowFits : low < 2 ^ shift)
    (whole : high * 2 ^ shift + low < 256) :
    (UInt8.ofNat (low ||| high * 2 ^ shift)).toNat = high * 2 ^ shift + low := by
  have joined : low ||| high * 2 ^ shift = high * 2 ^ shift + low := by
    rw [Nat.or_comm, Nat.mul_comm]
    exact (Nat.two_pow_add_eq_or_of_lt lowFits high).symm
  rw [joined]
  simpa using whole

/-- A continuation byte with six bits. -/
theorem continuation
    {low : Nat}
    (fits : low < 64) :
    IsContinuation (UInt8.ofNat (low ||| 0x80)) ∧ (UInt8.ofNat (low ||| 0x80)).toNat % 64 = low := by
  have value : (UInt8.ofNat (low ||| 0x80)).toNat = 2 * 2 ^ 6 + low :=
    ofNat_or_toNat low 2 6 fits (by omega)
  rw [IsContinuation, value]
  omega

theorem nextJchar_putUnicodeChar
    (chr : UInt16)
    (rest : List UInt8) :
    nextJchar (putUnicodeChar chr ++ rest) = some (chr.toNat, rest) := by
  have bound := chr.toNat_lt
  have lowSix : chr.toNat &&& 0x3F = chr.toNat % 64 := Nat.and_two_pow_sub_one_eq_mod chr.toNat 6
  have midSix : chr.toNat >>> 6 &&& 0x3F = chr.toNat / 64 % 64 := by
    rw [Nat.shiftRight_eq_div_pow]
    exact Nat.and_two_pow_sub_one_eq_mod _ 6
  obtain ⟨isLast, lastBits⟩ := continuation (Nat.mod_lt chr.toNat (by decide : 64 > 0))
  rw [putUnicodeChar, lowSix, midSix, Nat.shiftRight_eq_div_pow, Nat.shiftRight_eq_div_pow]
  split
  · next oneByte =>
      have value : (UInt8.ofNat chr.toNat).toNat = chr.toNat := by simp; omega
      have small : chr.toNat < 128 := by omega
      rw [List.singleton_append, nextJchar, value, if_neg oneByte.1, if_pos small]
  · next notOneByte =>
      split
      · next twoBytes =>
          have value : (UInt8.ofNat (chr.toNat / 2 ^ 6 ||| 0xC0)).toNat = 6 * 2 ^ 5 + chr.toNat / 64 :=
            ofNat_or_toNat _ 6 5 (by omega) (by omega)
          have isFirst : (6 * 2 ^ 5 + chr.toNat / 64) / 32 = 6 := by omega
          rw [List.cons_append, List.singleton_append, nextJchar, value, if_neg (by omega),
            if_neg (by omega), if_pos isFirst, twoBytesJchar, if_pos isLast, lastBits]
          congr 2
          omega
      · next threeBytes =>
          have value : (UInt8.ofNat (chr.toNat / 2 ^ 12 ||| 0xE0)).toNat =
              14 * 2 ^ 4 + chr.toNat / 2 ^ 12 :=
            ofNat_or_toNat _ 14 4 (by omega) (by omega)
          obtain ⟨isMiddle, middleBits⟩ :=
            continuation (Nat.mod_lt (chr.toNat / 64) (by decide : 64 > 0))
          have isFirst : (14 * 2 ^ 4 + chr.toNat / 2 ^ 12) / 16 = 0xE := by omega
          rw [List.cons_append, List.cons_append, List.singleton_append, nextJchar, value,
            if_neg (by omega), if_neg (by omega), if_neg (by omega), if_pos isFirst,
            threeBytesJchar, if_pos isMiddle, if_pos isLast, lastBits, middleBits]
          congr 2
          omega

theorem decodes_flatMap_putUnicodeChar
    (chars : List UInt16) :
    Decodes (chars.flatMap putUnicodeChar) (chars.map UInt16.toNat) := by
  induction chars with
  | nil =>
      exact .nil
  | cons chr chars inductionHypothesis =>
      rw [List.flatMap_cons]
      exact .cons (nextJchar_putUnicodeChar chr _) inductionHypothesis

/-! ## The stream in front of some bytes -/

namespace Utf8Stream

/-- The bytes from an index to the end of the string. -/
structure At (stream : Utf8Stream) (index : Nat) (suffix : List UInt8) : Prop where
  begins : stream.start ≤ index
  ends : index + suffix.length = stream.stop
  bytes : suffix <+: stream.buffer.drop index

variable {stream : Utf8Stream} {index : Nat} {byte : UInt8} {suffix rest : List UInt8}

theorem window_length : stream.window.length = stream.length := by
  have fits := stream.fits
  rw [window, List.length_take, List.length_drop]
  omega

theorem at_start : stream.At stream.start stream.window where
  begins := Nat.le_refl _
  ends := by rw [window_length, stop]
  bytes := List.take_prefix _ _

theorem At.tail
    (standsAt : stream.At index (byte :: rest)) :
    stream.At (index + 1) rest := by
  obtain ⟨behind, isSuffix⟩ := standsAt.bytes
  refine ⟨Nat.le_succ_of_le standsAt.begins, ?_, behind, ?_⟩
  · rw [← standsAt.ends, List.length_cons]
    omega
  · rw [← List.tail_drop, ← isSuffix]
    rfl

theorem At.lt_stop
    (standsAt : stream.At index (byte :: rest)) :
    index < stream.stop := by
  rw [← standsAt.ends, List.length_cons]
  omega

theorem At.not_lt_stop
    (standsAt : stream.At index []) :
    ¬ index < stream.stop := by
  rw [← standsAt.ends, List.length_nil]
  omega

theorem At.byteAt
    (standsAt : stream.At index (byte :: rest)) :
    stream.byteAt index = .ok byte := by
  obtain ⟨behind, isSuffix⟩ := standsAt.bytes
  have found : stream.buffer.getD index 0 = byte := by
    rw [List.getD_eq_getElem?_getD, ← List.head?_drop, ← isSuffix]
    rfl
  rw [Utf8Stream.byteAt, if_pos ⟨standsAt.begins, standsAt.lt_stop⟩, found]

/-- The form of two bytes behind its first byte. -/
theorem At.slow_two
    (standsAt : stream.At index suffix)
    {chr1 : Nat}
    (isFirst : chr1 / 32 = 6) :
    (∃ chr rest next, twoBytesJchar chr1 suffix = some (chr, rest) ∧
      stream.getNextJcharSlow index chr1 = .ok (next, chr) ∧ stream.At next rest) ∨
    twoBytesJchar chr1 suffix = none ∧ stream.getNextJcharSlow index chr1 = .error .utf8Error := by
  have isTwo : chr1 / 16 = 0xC ∨ chr1 / 16 = 0xD := by omega
  rw [getNextJcharSlow, if_pos isTwo]
  cases suffix with
  | nil =>
      rw [if_neg standsAt.not_lt_stop]
      exact Or.inr ⟨rfl, rfl⟩
  | cons chr2 rest =>
      rw [if_pos standsAt.lt_stop, standsAt.byteAt, ok_bind, twoBytesJchar]
      by_cases isSecond : IsContinuation chr2
      · rw [if_pos isSecond, if_pos isSecond]
        exact Or.inl ⟨_, rest, index + 1, rfl, rfl, standsAt.tail⟩
      · rw [if_neg isSecond, if_neg isSecond]
        exact Or.inr ⟨rfl, rfl⟩

/-- The form of three bytes behind its first byte. -/
theorem At.slow_three
    (standsAt : stream.At index suffix)
    {chr1 : Nat}
    (isFirst : chr1 / 16 = 0xE) :
    (∃ chr rest next, threeBytesJchar chr1 suffix = some (chr, rest) ∧
      stream.getNextJcharSlow index chr1 = .ok (next, chr) ∧ stream.At next rest) ∨
    threeBytesJchar chr1 suffix = none ∧
      stream.getNextJcharSlow index chr1 = .error .utf8Error := by
  have notTwo : ¬ (chr1 / 16 = 0xC ∨ chr1 / 16 = 0xD) := by omega
  rw [getNextJcharSlow, if_neg notTwo, if_pos isFirst]
  cases suffix with
  | nil =>
      rw [if_neg standsAt.not_lt_stop]
      exact Or.inr ⟨rfl, rfl⟩
  | cons chr2 rest =>
      rw [if_pos standsAt.lt_stop, standsAt.byteAt, ok_bind]
      cases rest with
      | nil =>
          rw [if_neg fun both => standsAt.tail.not_lt_stop both.2]
          exact Or.inr ⟨rfl, rfl⟩
      | cons chr3 rest =>
          rw [threeBytesJchar]
          by_cases isSecond : IsContinuation chr2
          · have both : IsContinuation chr2 ∧ index + 1 < stream.stop :=
              ⟨isSecond, standsAt.tail.lt_stop⟩
            rw [if_pos isSecond, if_pos both, standsAt.tail.byteAt, ok_bind]
            by_cases isThird : IsContinuation chr3
            · rw [if_pos isThird, if_pos isThird]
              exact Or.inl ⟨_, rest, index + 2, rfl, rfl, standsAt.tail.tail⟩
            · rw [if_neg isThird, if_neg isThird]
              exact Or.inl ⟨_, chr3 :: rest, index + 1, rfl, rfl, standsAt.tail⟩
          · have notBoth : ¬ (IsContinuation chr2 ∧ index + 1 < stream.stop) :=
              fun both => isSecond both.1
            rw [if_neg isSecond, if_neg notBoth]
            exact Or.inr ⟨rfl, rfl⟩

/-- The stream finds the first of the characters in front of it, or reports an error. -/
theorem At.getNextJchar
    (standsAt : stream.At index suffix) :
    (∃ chr rest next, nextJchar suffix = some (chr, rest) ∧
      stream.getNextJcharFromUtf8 index = .ok (next, chr) ∧ stream.At next rest) ∨
    nextJchar suffix = none ∧ stream.getNextJcharFromUtf8 index = .error .utf8Error := by
  have begins := standsAt.begins
  rw [getNextJcharFromUtf8]
  cases suffix with
  | nil =>
      have atEnd := standsAt.not_lt_stop
      rw [if_pos (by omega)]
      exact Or.inr ⟨rfl, rfl⟩
  | cons chr1 rest =>
      have inside := standsAt.lt_stop
      rw [if_neg (by omega), standsAt.byteAt, ok_bind, nextJchar]
      by_cases isNul : chr1.toNat = 0
      · rw [if_pos isNul, if_pos isNul]
        exact Or.inr ⟨rfl, rfl⟩
      · rw [if_neg isNul, if_neg isNul]
        by_cases small : chr1.toNat < 128
        · rw [if_pos small, if_neg (by omega)]
          exact Or.inl ⟨chr1.toNat, rest, index + 1, rfl, rfl, standsAt.tail⟩
        · rw [if_neg small, if_pos (Nat.le_of_not_lt small)]
          by_cases isTwo : chr1.toNat / 32 = 6
          · rw [if_pos isTwo]
            exact standsAt.tail.slow_two isTwo
          · rw [if_neg isTwo]
            by_cases isThree : chr1.toNat / 16 = 0xE
            · rw [if_pos isThree]
              exact standsAt.tail.slow_three isThree
            · have notTwo : ¬ (chr1.toNat / 16 = 0xC ∨ chr1.toNat / 16 = 0xD) := by omega
              rw [if_neg isThree, getNextJcharSlow, if_neg notTwo, if_neg isThree]
              exact Or.inr ⟨rfl, rfl⟩

/-- The loop of `length()` counts the characters in front of the stream. -/
theorem At.lengthFrom
    (standsAt : stream.At index suffix)
    (fuel result : Nat)
    (enough : suffix.length < fuel) :
    (∃ chrs, Decodes suffix chrs ∧
      stream.lengthFrom fuel index result = .ok (result + chrs.length)) ∨
    (¬ ∃ chrs, Decodes suffix chrs) ∧
      stream.lengthFrom fuel index result = .error .utf8Error := by
  induction fuel generalizing index suffix result with
  | zero =>
      omega
  | succ fuel inductionHypothesis =>
      rw [Utf8Stream.lengthFrom]
      cases suffix with
      | nil =>
          rw [if_neg standsAt.not_lt_stop]
          exact Or.inl ⟨[], .nil, rfl⟩
      | cons byte behind =>
          rw [if_pos standsAt.lt_stop]
          obtain ⟨chr, rest, next, found, read, onward⟩ | ⟨notFound, read⟩ := standsAt.getNextJchar
          · have shorter := nextJchar_lt found
            rw [read, ok_bind]
            obtain ⟨chrs, decodes, counted⟩ | ⟨notDecoded, failed⟩ :=
              inductionHypothesis onward (result + 1) (by omega)
            · refine Or.inl ⟨chr :: chrs, .cons found decodes, ?_⟩
              rw [List.length_cons]
              dsimp only
              rw [counted]
              congr 1
              omega
            · refine Or.inr ⟨?_, failed⟩
              rintro ⟨chrs, decodes⟩
              cases decodes with
              | cons found' decodes =>
                  rw [found] at found'
                  cases found'
                  exact notDecoded ⟨_, decodes⟩
          · rw [read, error_bind]
            refine Or.inr ⟨?_, rfl⟩
            rintro ⟨chrs, decodes⟩
            cases decodes with
            | cons found _ =>
                rw [notFound] at found
                cases found

/-- As many reads as there are characters give them all, and end with the string. -/
theorem At.rawReads
    (standsAt : stream.At index suffix)
    {chrs : List Nat}
    (decodes : Decodes suffix chrs) :
    stream.rawReads chrs.length index = .ok (stream.stop, chrs) := by
  induction decodes generalizing index with
  | nil =>
      rw [← standsAt.ends]
      rfl
  | cons found _ inductionHypothesis =>
      obtain ⟨chr', rest', next, found', read, onward⟩ | ⟨notFound, _⟩ := standsAt.getNextJchar
      · rw [found] at found'
        cases found'
        rw [List.length_cons, Utf8Stream.rawReads, rawRead, read]
        dsimp only
        rw [ok_bind]
        dsimp only
        rw [inductionHypothesis onward]
        rfl
      · rw [found] at notFound
        cases notFound

/-! ## Whole strings -/

variable (stream)

theorem characterCount_cases :
    (∃ chrs, Decodes stream.window chrs ∧ stream.characterCount = .ok chrs.length) ∨
    ¬ Accepted stream.window ∧ stream.characterCount = .error .utf8Error := by
  have enough : stream.window.length < stream.length + 1 := by
    rw [window_length]
    exact Nat.lt_succ_self _
  obtain ⟨chrs, decodes, counted⟩ | ⟨notDecoded, failed⟩ :=
    stream.at_start.lengthFrom (stream.length + 1) 0 enough
  · rw [Nat.zero_add] at counted
    exact Or.inl ⟨chrs, decodes, counted⟩
  · exact Or.inr ⟨fun accepted => notDecoded (accepted_iff_exists_decodes.1 accepted), failed⟩

theorem isValid_cases :
    Accepted stream.window ∧ stream.isValid = .ok true ∨
    ¬ Accepted stream.window ∧ stream.isValid = .ok false := by
  obtain ⟨chrs, decodes, counted⟩ | ⟨notAccepted, failed⟩ := stream.characterCount_cases
  · left
    exact ⟨accepted_iff_exists_decodes.2 ⟨chrs, decodes⟩, by rw [isValid, counted]⟩
  · right
    exact ⟨notAccepted, by rw [isValid, failed]⟩

theorem decode_of_decodes
    {chrs : List Nat}
    (decodes : Decodes stream.window chrs) :
    stream.decode = .ok (stream.stop, chrs) := by
  obtain ⟨chrs', decodes', counted⟩ | ⟨notAccepted, _⟩ := stream.characterCount_cases
  · have read := stream.at_start.rawReads decodes'
    rw [decode, counted, ok_bind, read, decodes'.unique decodes]
  · exact absurd (accepted_iff_exists_decodes.2 ⟨chrs, decodes⟩) notAccepted

theorem decodes_of_decode
    {last : Nat}
    {chrs : List Nat}
    (decoded : stream.decode = .ok (last, chrs)) :
    Decodes stream.window chrs := by
  obtain ⟨chrs', decodes, _⟩ | ⟨_, failed⟩ := stream.characterCount_cases
  · rw [stream.decode_of_decodes decodes] at decoded
    cases decoded
    exact decodes
  · rw [decode, failed, error_bind] at decoded
    cases decoded

/-- Reading a string that is let through takes its bytes and no others. -/
theorem accepted_iff_decode :
    Accepted stream.window ↔ ∃ chrs, stream.decode = .ok (stream.stop, chrs) := by
  constructor
  · intro accepted
    obtain ⟨chrs, decodes⟩ := accepted_iff_exists_decodes.1 accepted
    exact ⟨chrs, stream.decode_of_decodes decodes⟩
  · rintro ⟨chrs, decoded⟩
    exact accepted_iff_exists_decodes.2 ⟨chrs, stream.decodes_of_decode decoded⟩

theorem within_window
    (before bytes after : List UInt8) :
    (within before bytes after).window = bytes := by
  simp [within, window]

end Utf8Stream

/-! ## The check and the encoding -/

theorem accepted_of_all_positive
    {bytes : List UInt8}
    (positive : ∀ byte ∈ bytes, 0 < byte.toNat ∧ byte.toNat < 128) :
    Accepted bytes := by
  induction bytes with
  | nil =>
      exact .nil
  | cons byte bytes inductionHypothesis =>
      obtain ⟨isByte, areBytes⟩ := List.forall_mem_cons.mp positive
      exact .cons (.one isByte.1 isByte.2) (inductionHypothesis areBytes)

/-- The quick path skips nothing that matters. -/
theorem isValidUtf8InBuffer_cases
    (buffer : List UInt8)
    (position utf8Length : Nat) :
    (position + utf8Length ≤ buffer.length ∧ Accepted ((buffer.drop position).take utf8Length)) ∧
      isValidUtf8InBuffer buffer position utf8Length = .ok true ∨
    ¬ (position + utf8Length ≤ buffer.length ∧
        Accepted ((buffer.drop position).take utf8Length)) ∧
      isValidUtf8InBuffer buffer position utf8Length = .ok false := by
  rw [isValidUtf8InBuffer]
  split
  · next fits =>
      split
      · next positive =>
          left
          refine ⟨⟨fits, accepted_of_all_positive fun byte found => ?_⟩, rfl⟩
          exact of_decide_eq_true (List.all_eq_true.mp positive byte found)
      · obtain ⟨accepted, isValid⟩ | ⟨notAccepted, isValid⟩ :=
          Utf8Stream.isValid_cases ⟨buffer, position, utf8Length, fits⟩
        · exact Or.inl ⟨⟨fits, accepted⟩, isValid⟩
        · exact Or.inr ⟨fun both => notAccepted both.2, isValid⟩
  · next notFits =>
      exact Or.inr ⟨fun both => notFits both.1, rfl⟩

/-- Characters survive being encoded and decoded, the check lets through the accepted strings, and
reading one of these takes exactly its bytes. -/
theorem modifiedUtf8_handled :
    (∀ (before after : List UInt8) (chars : List UInt16),
      (Utf8Stream.within before (chars.flatMap putUnicodeChar) after).decode =
        .ok (before.length + (chars.flatMap putUnicodeChar).length, chars.map UInt16.toNat)) ∧
    (∀ (buffer : List UInt8) (position utf8Length : Nat),
      (∃ answer, isValidUtf8InBuffer buffer position utf8Length = .ok answer) ∧
      (isValidUtf8InBuffer buffer position utf8Length = .ok true ↔
        position + utf8Length ≤ buffer.length ∧
          Accepted ((buffer.drop position).take utf8Length))) ∧
    ∀ stream : Utf8Stream,
      Accepted stream.window ↔ ∃ chrs, stream.decode = .ok (stream.stop, chrs) := by
  refine ⟨?_, ?_, Utf8Stream.accepted_iff_decode⟩
  · intro before after chars
    apply Utf8Stream.decode_of_decodes
    rw [Utf8Stream.within_window]
    exact decodes_flatMap_putUnicodeChar chars
  · intro buffer position utf8Length
    obtain ⟨accepted, answer⟩ | ⟨notAccepted, answer⟩ :=
      isValidUtf8InBuffer_cases buffer position utf8Length
    · exact ⟨⟨true, answer⟩, iff_of_true answer accepted⟩
    · refine ⟨⟨false, answer⟩, iff_of_false (fun isTrue => ?_) notAccepted⟩
      rw [answer] at isTrue
      cases isTrue

/-- Two bytes of a form of three, and a letter. -/
def shortForm : List UInt8 :=
  [0xE1, 0x80, 0x41]

theorem shortForm_accepted :
    isValidUtf8InBuffer shortForm 0 3 = .ok true ∧ ¬ WellFormed shortForm := by
  constructor
  · decide
  · intro wellFormed
    generalize isShort : shortForm = bytes at wellFormed
    cases wellFormed with
    | nil =>
        cases isShort
    | cons isForm _ =>
        cases isForm with
        | one _ small =>
            cases isShort
            revert small
            decide
        | two isFirst _ =>
            cases isShort
            revert isFirst
            decide
        | three _ _ isThird =>
            cases isShort
            revert isThird
            decide

end PicoJvm.Names
