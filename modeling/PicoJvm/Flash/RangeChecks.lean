import PicoJvm.Files.StreamCalls

/-!
# Range checks

The methods of `Flash` and of the file streams check an offset and a length against an array
before they call a native, which trusts them.
-/

namespace PicoJvm.Flash

open PicoJvm.Files
open PicoJvm.Lib
open PicoJvm.Lib.Machine

/-! ## Methods of `Flash` -/

/-- `PAGE_SIZE`. -/
def pageSize : Int := 256

/-- What `flash_read` copies: `len` bytes of the flash from an offset on. -/
def flashRead (flash : Nat → UInt8) (offset : Int) (data : List UInt8) (off len : Int) :
    List UInt8 :=
  Ring.overwrite data off.toNat
    ((List.range len.toNat).map fun place => flash (unsigned offset + place))

/-- `Flash.read`. -/
def read (flash : Nat → UInt8) (offset : Int) (data : Option (List UInt8)) (off len : Int) :
    Outcome Unit :=
  match data with
  | none => .threw .nullPointer []
  | some data =>
      if outsideArray off len data then
        .threw .indexOutOfBounds data
      else
        ⟨some (off, len), .ok (), flashRead flash offset data off len⟩

/-- `Flash.program`. The native leaves the array as it is. -/
def program (offset : Int) (data : Option (List UInt8)) (off len : Int) : Outcome Unit :=
  if offset % pageSize ≠ 0 ∨ len % pageSize ≠ 0 then
    .threw (.io "Offset and length must be page-aligned (256)") (data.getD [])
  else
    match data with
    | none => .threw .nullPointer []
    | some data =>
        if outsideArray off len data then
          .threw .indexOutOfBounds data
        else
          ⟨some (off, len), .ok (), data⟩

/-! ## Ranges of an array -/

/-- The range is one of the array, without regard to the size of an `int`. -/
def InArray (off len : Int) (array : List UInt8) : Prop :=
  0 ≤ off ∧ 0 ≤ len ∧ off + len ≤ array.length

instance (off len : Int) (array : List UInt8) : Decidable (InArray off len array) :=
  inferInstanceAs (Decidable (_ ∧ _))

/-- The end of the range is an `int`, if the check gets that far. -/
def EndFits (off len : Int) : Prop :=
  0 ≤ off → 0 ≤ len → off + len < 2147483648

instance (off len : Int) : Decidable (EndFits off len) :=
  inferInstanceAs (Decidable (_ → _))

/-- A method throws outside the array, calls its native inside if it gets that far, and the
native stays in the array. -/
structure ChecksRange {answer : Type} (outcome : Outcome answer) (off len : Int)
    (array : List UInt8) (getsThere : Prop) : Prop where
  calls : outcome.native = some (off, len) ↔ InArray off len array ∧ getsThere
  throws : ¬ InArray off len array → ∃ exception, outcome.result = .error exception
  stays : ∀ start count, outcome.native = some (start, count) →
    ∀ place, start ≤ place → place < start + count → 0 ≤ place ∧ place < array.length

theorem outsideArray_iff
    {off len : Int}
    (fits : EndFits off len)
    (array : List UInt8) :
    outsideArray off len array = true ↔ ¬ InArray off len array := by
  rw [← Bool.not_eq_false, not_iff_not, outsideArray_eq_false_iff, InArray]
  constructor
  · rintro ⟨offNonneg, lenNonneg, inside⟩
    rw [signed_of_inRange ⟨by omega, fits offNonneg lenNonneg⟩] at inside
    exact ⟨offNonneg, lenNonneg, inside⟩
  · rintro ⟨offNonneg, lenNonneg, inside⟩
    rw [signed_of_inRange ⟨by omega, fits offNonneg lenNonneg⟩]
    exact ⟨offNonneg, lenNonneg, inside⟩

/-- A range whose end is no `int` passes the check of every array. -/
theorem outsideArray_of_wraps
    {off len : Int}
    (offNonneg : 0 ≤ off) (offFits : off < 2147483648)
    (lenNonneg : 0 ≤ len) (lenFits : len < 2147483648)
    (wraps : ¬ EndFits off len)
    (array : List UInt8) :
    outsideArray off len array = false := by
  have large : 2147483648 ≤ off + len := by
    by_contra below
    exact wraps fun _ _ => by omega
  rw [outsideArray_eq_false_iff]
  refine ⟨offNonneg, lenNonneg, ?_⟩
  have wrapped : signed (off + len) < 0 := by
    simp only [signed, Int.bmod]
    split <;> omega
  omega

/-- A method that throws for want of room, ends early, or calls its native with the range. -/
theorem ChecksRange.of_cases
    {answer : Type}
    {outcome : Outcome answer} {off len : Int} {array : List UInt8} {getsThere : Prop}
    (outside : ¬ InArray off len array →
      outcome.native = none ∧ ∃ exception, outcome.result = .error exception)
    (early : InArray off len array → ¬ getsThere → outcome.native = none)
    (there : InArray off len array → getsThere → outcome.native = some (off, len)) :
    ChecksRange outcome off len array getsThere := by
  have onlyThen : ∀ start count, outcome.native = some (start, count) →
      InArray off len array ∧ getsThere := by
    intro start count called
    by_cases inside : InArray off len array
    · refine ⟨inside, ?_⟩
      by_contra stops
      rw [early inside stops] at called
      cases called
    · rw [(outside inside).1] at called
      cases called
  refine ⟨⟨onlyThen off len, fun both => there both.1 both.2⟩, fun notIn => (outside notIn).2, ?_⟩
  intro start count called place fromStart beforeEnd
  obtain ⟨inside, gets⟩ := onlyThen start count called
  rw [there inside gets, Option.some.injEq, Prod.mk.injEq] at called
  obtain ⟨rfl, rfl⟩ := called
  obtain ⟨offNonneg, _, endInside⟩ := inside
  omega

section Methods

variable {off len : Int} (fits : EndFits off len) (array : List UInt8)
include fits

theorem read_checksRange (flash : Nat → UInt8) (offset : Int) :
    ChecksRange (read flash offset (some array) off len) off len array True := by
  have outside := outsideArray_iff fits array
  apply ChecksRange.of_cases
  · intro notIn
    rw [read, if_pos (outside.mpr notIn)]
    exact ⟨rfl, .indexOutOfBounds, rfl⟩
  · intro _ stops
    exact absurd trivial stops
  · intro inside _
    rw [read, if_neg (fun isOut => outside.mp isOut inside)]

theorem program_checksRange (offset : Int) :
    ChecksRange (program offset (some array) off len) off len array
      (offset % pageSize = 0 ∧ len % pageSize = 0) := by
  have outside := outsideArray_iff fits array
  apply ChecksRange.of_cases
  · intro notIn
    rw [program]
    split
    · exact ⟨rfl, _, rfl⟩
    · rw [if_pos (outside.mpr notIn)]
      exact ⟨rfl, _, rfl⟩
  · intro _ unaligned
    rw [program, if_pos (by omega)]
    rfl
  · intro inside aligned
    rw [program, if_neg (by omega), if_neg (fun isOut => outside.mp isOut inside)]

theorem streamRead_checksRange
    (native : Nat → List UInt8 → Int → Int → Int × List UInt8) (fd : Nat) :
    ChecksRange (FileInputStream.read native (some fd) (some array) off len) off len array
      (len ≠ 0) := by
  have outside := outsideArray_iff fits array
  apply ChecksRange.of_cases
  · intro notIn
    rw [FileInputStream.read, if_pos (outside.mpr notIn)]
    exact ⟨rfl, .indexOutOfBounds, rfl⟩
  · intro inside empty
    rw [FileInputStream.read, if_neg (fun isOut => outside.mp isOut inside),
      if_pos (not_not.mp empty)]
  · intro inside notEmpty
    rw [FileInputStream.read, if_neg (fun isOut => outside.mp isOut inside), if_neg notEmpty]
    dsimp only
    split
    · rfl
    · split <;> rfl

theorem streamWrite_checksRange
    (native : Nat → List UInt8 → Int → Int → Int) (fd : Nat) :
    ChecksRange (FileOutputStream.write native (some fd) (some array) off len) off len array
      (len ≠ 0) := by
  have outside := outsideArray_iff fits array
  apply ChecksRange.of_cases
  · intro notIn
    rw [FileOutputStream.write, if_pos (outside.mpr notIn)]
    exact ⟨rfl, .indexOutOfBounds, rfl⟩
  · intro inside empty
    rw [FileOutputStream.write, if_neg (fun isOut => outside.mp isOut inside),
      if_pos (not_not.mp empty)]
  · intro inside notEmpty
    rw [FileOutputStream.write, if_neg (fun isOut => outside.mp isOut inside), if_neg notEmpty]
    split <;> rfl

/-- Every method calls its native exactly for ranges of the array and throws for others, but
for an empty range of a stream, which is done at once, and for a page that is not aligned, for
which `program` throws. -/
theorem methods_check_range
    (flash : Nat → UInt8) (offset : Int)
    (readNative : Nat → List UInt8 → Int → Int → Int × List UInt8)
    (writeNative : Nat → List UInt8 → Int → Int → Int) (fd : Nat) :
    ChecksRange (read flash offset (some array) off len) off len array True ∧
      ChecksRange (program offset (some array) off len) off len array
        (offset % pageSize = 0 ∧ len % pageSize = 0) ∧
      (¬ (offset % pageSize = 0 ∧ len % pageSize = 0) →
        ∃ message, (program offset (some array) off len).result = .error (.io message)) ∧
      ChecksRange (FileInputStream.read readNative (some fd) (some array) off len) off len array
        (len ≠ 0) ∧
      ChecksRange (FileOutputStream.write writeNative (some fd) (some array) off len) off len
        array (len ≠ 0) ∧
      (InArray off len array → len = 0 →
        FileInputStream.read readNative (some fd) (some array) off len = ⟨none, .ok 0, array⟩ ∧
          FileOutputStream.write writeNative (some fd) (some array) off len =
            ⟨none, .ok (), array⟩) := by
  have outside := outsideArray_iff fits array
  refine ⟨read_checksRange fits array flash offset, program_checksRange fits array offset, ?_,
    streamRead_checksRange fits array readNative fd,
    streamWrite_checksRange fits array writeNative fd, ?_⟩
  · intro unaligned
    rw [program, if_pos (by omega)]
    exact ⟨_, rfl⟩
  · intro inside empty
    have isIn : ¬ outsideArray off len array = true := fun isOut => outside.mp isOut inside
    rw [FileInputStream.read, FileOutputStream.write, if_neg isIn, if_neg isIn, if_pos empty,
      if_pos empty]
    exact ⟨rfl, rfl⟩

end Methods

theorem methods_check_range_page :
    EndFits 0 256 ∧
      ChecksRange (read (fun _ => 0) 0 (some (List.replicate 300 0)) 0 256) 0 256
        (List.replicate 300 0) True :=
  ⟨by decide, (methods_check_range (by decide) (List.replicate 300 0) (fun _ => 0) 0
    (fun _ array _ _ => (0, array)) (fun _ _ _ _ => 0) 0).1⟩

/-- An empty range of a stream is one of the array, and the native is not called; a range whose
end is no `int` is none of the array, and the native is called. -/
theorem checks_not_exact :
    ¬ ChecksRange
        (FileInputStream.read (fun _ array _ _ => (0, array)) (some 0) (some [7]) 0 0) 0 0 [7]
        True ∧
      ¬ ChecksRange (read (fun _ => 0) 0 (some [7]) 1 2147483647) 1 2147483647 [7] True := by
  constructor
  · intro checks
    exact absurd (checks.calls.mpr ⟨by decide, trivial⟩) (by decide)
  · intro checks
    exact absurd (checks.calls.mp rfl).1 (by decide)

end PicoJvm.Flash
