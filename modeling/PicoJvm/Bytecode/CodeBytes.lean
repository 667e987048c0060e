import Mathlib.Data.List.Basic
import Mathlib.Tactic.Ring

/-!
# Reading and rewriting the bytes of a code array

The accessors of `Method` and `Bytes` that the checker uses, for a little-endian
32-bit machine. Every read says whether it stays inside the code array.
-/

namespace PicoJvm.CodeBytes

/-- The bytes of a method, `code_base()` up to `code_size()`. -/
abbrev Code := List UInt8

/-- `wordSize` and `BytesPerWord`. -/
def wordSize : Nat := 4

/-- `align_size_up(bci, wordSize)`. -/
@[irreducible] def alignSizeUp (bci : Nat) : Nat :=
  (bci + (wordSize - 1)) / wordSize * wordSize

/-! ## 32-bit integers -/

/-- The result of a `jint` operation: the value modulo `2^32`, read as signed. -/
@[irreducible] def wrapInt (value : Int) : Int :=
  (value + 2147483648) % 4294967296 - 2147483648

/-- A `juint` read as a `jint`. -/
def toJint (word : Nat) : Int :=
  wrapInt word

/-- `Bytes::swap_u2`. -/
def swapU2 (half : Nat) : Nat :=
  half % 256 * 256 + half / 256

/-- `Bytes::swap_u4`. -/
@[irreducible] def swapU4 (word : Nat) : Nat :=
  swapU2 (word % 65536) * 65536 + swapU2 (word / 65536)

/-! ## Access -/

/-- What ends a walk over the code early. The last two never happen in the
source; the model has them so that their absence can be stated. -/
inductive Fault
  | illegalCode
  | illegalWideCode
  | readPastEnd
  | outOfFuel
  deriving DecidableEq, Repr

/-- `bytecode_at(bci)` and `*bcptr`. -/
def byteAt (code : Code) (bci : Nat) : Except Fault Nat :=
  match code[bci]? with
  | some byte => .ok byte.toNat
  | none => .error .readPastEnd

/-- `get_native_aligned_int(bci)`, as the unsigned word. -/
def getNativeAlignedInt (code : Code) (bci : Nat) : Except Fault Nat := do
  let byte0 ← byteAt code bci
  let byte1 ← byteAt code (bci + 1)
  let byte2 ← byteAt code (bci + 2)
  let byte3 ← byteAt code (bci + 3)
  return byte0 + byte1 * 256 + byte2 * 65536 + byte3 * 16777216

/-- `put_native_aligned_int(bci, value)`. -/
def putNativeAlignedInt (code : Code) (bci : Nat) (word : Nat) : Code :=
  (((code.set bci (UInt8.ofNat word)).set (bci + 1) (UInt8.ofNat (word / 256))).set
    (bci + 2) (UInt8.ofNat (word / 65536))).set (bci + 3) (UInt8.ofNat (word / 16777216))

/-- The loop that rewrites `words` aligned words from `offset` on. -/
def swapWords : Nat → Code → Nat → Except Fault Code
  | 0, code, _ => .ok code
  | words + 1, code, offset => do
      let old ← getNativeAlignedInt code offset
      swapWords words (putNativeAlignedInt code offset (swapU4 old)) (offset + wordSize)

/-! ## The same reads as total functions -/

/-- The byte at `bci`, 0 outside the code. -/
def byteD (code : Code) (bci : Nat) : Nat :=
  (code.getD bci 0).toNat

/-- The big-endian word at `bci`, as the class file stores it. -/
@[irreducible] def javaWord (code : Code) (bci : Nat) : Nat :=
  byteD code bci * 16777216 + byteD code (bci + 1) * 65536 +
    byteD code (bci + 2) * 256 + byteD code (bci + 3)

/-- The little-endian word at `bci`. -/
@[irreducible] def nativeWord (code : Code) (bci : Nat) : Nat :=
  byteD code bci + byteD code (bci + 1) * 256 +
    byteD code (bci + 2) * 65536 + byteD code (bci + 3) * 16777216

theorem byteD_lt (code : Code) (bci : Nat) : byteD code bci < 256 :=
  (code.getD bci 0).toNat_lt

theorem byteAt_eq
    {code : Code} {bci : Nat}
    (inside : bci < code.length) :
    byteAt code bci = .ok (byteD code bci) := by
  simp [byteAt, byteD, List.getElem?_eq_getElem inside]

theorem getNativeAlignedInt_eq
    {code : Code} {bci : Nat}
    (inside : bci + 3 < code.length) :
    getNativeAlignedInt code bci = .ok (nativeWord code bci) := by
  have h0 : bci < code.length := by omega
  have h1 : bci + 1 < code.length := by omega
  have h2 : bci + 2 < code.length := by omega
  simp only [getNativeAlignedInt, byteAt_eq h0, byteAt_eq h1, byteAt_eq h2, byteAt_eq inside,
    nativeWord]
  rfl

theorem swapU4_nativeWord (code : Code) (bci : Nat) :
    swapU4 (nativeWord code bci) = javaWord code bci := by
  have := byteD_lt code bci
  have := byteD_lt code (bci + 1)
  have := byteD_lt code (bci + 2)
  have := byteD_lt code (bci + 3)
  unfold swapU4 swapU2 nativeWord javaWord
  omega

/-- Once its bytes are reversed, a word reads natively as it read before. -/
theorem nativeWord_of_reversed
    {code code' : Code} {here : Nat}
    (reversed : ∀ byte < 4, code'[here + byte]? = code[here + (3 - byte)]?) :
    nativeWord code' here = javaWord code here := by
  have byteOf : ∀ byte < 4, byteD code' (here + byte) = byteD code (here + (3 - byte)) := by
    intro byte small
    simp only [byteD, List.getD_eq_getElem?_getD, reversed byte small]
  have first := byteOf 0 (by omega)
  have second := byteOf 1 (by omega)
  have third := byteOf 2 (by omega)
  have fourth := byteOf 3 (by omega)
  simp only [Nat.add_zero, Nat.sub_zero, Nat.sub_self, Nat.reduceSub] at first second third fourth
  unfold nativeWord javaWord
  rw [first, second, third, fourth]
  omega

theorem toJint_bounds (word : Nat) :
    -2147483648 ≤ toJint word ∧ toJint word < 2147483648 := by
  unfold toJint wrapInt
  omega

theorem wrapInt_of_small
    {value : Int}
    (lower : -2147483648 ≤ value)
    (upper : value < 2147483648) :
    wrapInt value = value := by
  unfold wrapInt
  omega

theorem wrapInt_of_large
    {value : Int}
    (lower : 2147483648 ≤ value)
    (upper : value < 6442450944) :
    wrapInt value = value - 4294967296 := by
  unfold wrapInt
  omega

theorem le_alignSizeUp (bci : Nat) : bci ≤ alignSizeUp bci ∧ alignSizeUp bci < bci + 4 := by
  unfold alignSizeUp wordSize
  omega

/-! ## The effect of the rewriting loop -/

/-- Where the byte at `place` comes from once the words of
`[first, first + 4 * words)` are reversed. -/
def mirror (first words place : Nat) : Nat :=
  if first ≤ place ∧ place < first + 4 * words then
    first + 4 * ((place - first) / 4) + (3 - (place - first) % 4)
  else
    place

theorem putNativeAlignedInt_length (code : Code) (bci word : Nat) :
    (putNativeAlignedInt code bci word).length = code.length := by
  simp [putNativeAlignedInt]

/-- Writing the swapped word back reverses the four bytes and nothing else. -/
theorem getElem?_putNativeAlignedInt_swap
    {code : Code} {bci : Nat}
    (inside : bci + 3 < code.length)
    (place : Nat) :
    (putNativeAlignedInt code bci (swapU4 (nativeWord code bci)))[place]? =
      code[mirror bci 1 place]? := by
  rw [swapU4_nativeWord]
  have byteOf : ∀ {here : Nat}, here < code.length →
      code[here]? = some (UInt8.ofNat (byteD code here)) := by
    intro here bound
    simp [byteD, List.getElem?_eq_getElem bound]
  have b0 := byteD_lt code bci
  have b1 := byteD_lt code (bci + 1)
  have b2 := byteD_lt code (bci + 2)
  have b3 := byteD_lt code (bci + 3)
  have low : UInt8.ofNat (javaWord code bci) = UInt8.ofNat (byteD code (bci + 3)) := by
    apply UInt8.toNat_inj.mp
    simp only [UInt8.toNat_ofNat', javaWord]
    omega
  have second : UInt8.ofNat (javaWord code bci / 256) = UInt8.ofNat (byteD code (bci + 2)) := by
    apply UInt8.toNat_inj.mp
    simp only [UInt8.toNat_ofNat', javaWord]
    omega
  have third : UInt8.ofNat (javaWord code bci / 65536) = UInt8.ofNat (byteD code (bci + 1)) := by
    apply UInt8.toNat_inj.mp
    simp only [UInt8.toNat_ofNat', javaWord]
    omega
  have high : UInt8.ofNat (javaWord code bci / 16777216) = UInt8.ofNat (byteD code bci) := by
    apply UInt8.toNat_inj.mp
    simp only [UInt8.toNat_ofNat', javaWord]
    omega
  unfold putNativeAlignedInt
  rw [low, second, third, high]
  by_cases within : bci ≤ place ∧ place < bci + 4 * 1
  · have whichByte : place = bci ∨ place = bci + 1 ∨ place = bci + 2 ∨ place = bci + 3 := by
      omega
    have source : mirror bci 1 place = bci + (3 - (place - bci)) := by
      unfold mirror
      rw [if_pos within]
      omega
    rw [source]
    rcases whichByte with rfl | rfl | rfl | rfl
    · simp [byteOf inside, show place < code.length by omega]
    · simp [byteOf (show bci + 2 < code.length by omega),
        show bci + 1 < code.length by omega]
    · simp [byteOf (show bci + 1 < code.length by omega),
        show bci + 2 < code.length by omega]
    · simp [byteOf (show bci < code.length by omega), inside]
  · have outside : mirror bci 1 place = place := by
      unfold mirror
      rw [if_neg within]
    rw [outside]
    have ne0 : bci ≠ place := by omega
    have ne1 : bci + 1 ≠ place := by omega
    have ne2 : bci + 2 ≠ place := by omega
    have ne3 : bci + 3 ≠ place := by omega
    rw [List.getElem?_set_ne ne3, List.getElem?_set_ne ne2, List.getElem?_set_ne ne1,
      List.getElem?_set_ne ne0]

/-- The loop reverses every word of its range once and touches no other byte. -/
theorem swapWords_spec
    (words : Nat) {code : Code} {first : Nat}
    (inside : first + 4 * words ≤ code.length) :
    ∃ code', swapWords words code first = .ok code' ∧
      code'.length = code.length ∧
      ∀ place, code'[place]? = code[mirror first words place]? := by
  induction words generalizing code first with
  | zero =>
      refine ⟨code, rfl, rfl, fun place => ?_⟩
      unfold mirror
      rw [if_neg (by omega)]
  | succ words inductionHypothesis =>
      have wordInside : first + 3 < code.length := by omega
      have restInside : first + wordSize + 4 * words ≤
          (putNativeAlignedInt code first (swapU4 (nativeWord code first))).length := by
        rw [putNativeAlignedInt_length]
        unfold wordSize
        omega
      obtain ⟨code', run, lengthKept, bytes⟩ := inductionHypothesis restInside
      refine ⟨code', ?_, ?_, fun place => ?_⟩
      · rw [swapWords, getNativeAlignedInt_eq wordInside]
        exact run
      · rw [lengthKept, putNativeAlignedInt_length]
      · rw [bytes place, getElem?_putNativeAlignedInt_swap wordInside]
        congr 1
        unfold mirror wordSize
        split_ifs <;> omega

end PicoJvm.CodeBytes
