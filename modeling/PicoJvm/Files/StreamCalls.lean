import PicoJvm.Files.FileTables
import PicoJvm.Lib.Machine
import PicoJvm.Lib.Ring

/-!
# Reading and writing through streams

`FileInputStream` and `FileOutputStream` call one native each, which asks LittleFS or FatFs.
What the file systems answer is given, within what they promise: never more bytes than were
asked for.
-/

namespace PicoJvm.Files

open PicoJvm.Lib
open PicoJvm.Lib.Machine

/-! ## Back ends -/

/-- What `lfs_file_write` returns for `len` bytes: a negative error or how many it took. -/
structure LfsResult (len : Int) where
  r : Int
  bounded : r ≤ len

/-- What `lfs_file_read` returns, and the bytes it put into the buffer. -/
structure LfsRead (len : Int) extends LfsResult len where
  bytes : List UInt8
  filled : 0 ≤ r → bytes.length = r.toNat

/-- What `f_write` returns: an `FRESULT`, which is 0 for `FR_OK`, and how many bytes it took. -/
structure FatFsResult (len : Int) where
  fr : Nat
  count : Nat
  bounded : count ≤ len.toNat

/-- What `f_read` returns, and the bytes it put into the buffer. -/
structure FatFsRead (len : Int) extends FatFsResult len where
  bytes : List UInt8
  filled : bytes.length = count

/-- The answers of both file systems, for a file and, when writing, the memory from the data
on. -/
structure BackEnds where
  lfsFileRead : Option StreamId → (len : Int) → LfsRead len
  lfsFileWrite : Option StreamId → List UInt8 → (len : Int) → LfsResult len
  fRead : StreamId → (len : Int) → FatFsRead len
  fWrite : StreamId → List UInt8 → (len : Int) → FatFsResult len

/-! ## Natives -/

section Natives

variable (ends : BackEnds) (tables : Tables)

/-- `sd_file_read`, and the array afterwards. -/
def sdFileRead (fd : Nat) (buf : List UInt8) (off len : Int) : Int × List UInt8 :=
  match SlotTable.lookup tables.sdFiles fd with
  | none => (-1, buf)
  | some file =>
      let answer := ends.fRead file len
      let buf := Ring.overwrite buf off.toNat answer.bytes
      if answer.fr ≠ 0 then (-1, buf) else (answer.count, buf)

/-- `sd_file_write`. -/
def sdFileWrite (fd : Nat) (buf : List UInt8) (off len : Int) : Int :=
  match SlotTable.lookup tables.sdFiles fd with
  | none => -1
  | some file =>
      let answer := ends.fWrite file (buf.drop off.toNat) len
      if answer.fr ≠ 0 then -1 else answer.count

/-- `file_read`, and the array afterwards. -/
def fileRead (fd : Nat) (buf : List UInt8) (off len : Int) : Int × List UInt8 :=
  match SlotTable.lookup tables.files fd with
  | none => (-1, buf)
  | some ctx =>
      if ctx.fs = .fatFs then
        sdFileRead ends tables ctx.sdFd buf off len
      else
        let answer := ends.lfsFileRead ctx.lfsFile len
        (if answer.r < 0 then -1 else answer.r, Ring.overwrite buf off.toNat answer.bytes)

/-- `file_write`. -/
def fileWrite (fd : Nat) (buf : List UInt8) (off len : Int) : Int :=
  match SlotTable.lookup tables.files fd with
  | none => -1
  | some ctx =>
      if ctx.fs = .fatFs then
        sdFileWrite ends tables ctx.sdFd buf off len
      else
        let answer := ends.lfsFileWrite ctx.lfsFile (buf.drop off.toNat) len
        if answer.r < 0 then -1 else answer.r

end Natives

/-! ## Methods -/

/-- What a method throws. -/
inductive JavaException
  | nullPointer
  | indexOutOfBounds
  | io (message : String)
  deriving DecidableEq, Repr

/-- How a method ends, the offset and length that it gave its native, and the array
afterwards. -/
structure Outcome (answer : Type) where
  native : Option (Int × Int)
  result : Except JavaException answer
  array : List UInt8

/-- A method that throws before it calls its native. -/
def Outcome.threw {answer : Type} (exception : JavaException) (array : List UInt8) :
    Outcome answer :=
  ⟨none, .error exception, array⟩

/-- `off < 0 || len < 0 || off + len > b.length`. -/
def outsideArray (off len : Int) (b : List UInt8) : Bool :=
  off < 0 || len < 0 || signed (off + len) > b.length

/-- `FileInputStream.read(b, off, len)`, of a stream that keeps a descriptor unless it is
closed. -/
def FileInputStream.read (native : Nat → List UInt8 → Int → Int → Int × List UInt8)
    (fd : Option Nat) (b : Option (List UInt8)) (off len : Int) : Outcome Int :=
  match fd with
  | none => .threw (.io "Stream closed") (b.getD [])
  | some fd =>
      match b with
      | none => .threw .nullPointer []
      | some b =>
          if outsideArray off len b then
            .threw .indexOutOfBounds b
          else if len = 0 then
            ⟨none, .ok 0, b⟩
          else
            let (n, b) := native fd b off len
            if n = 0 then
              ⟨some (off, len), .ok (-1), b⟩
            else if n < 0 then
              ⟨some (off, len), .error (.io "Read error"), b⟩
            else
              ⟨some (off, len), .ok n, b⟩

/-- `FileInputStream.read()`. -/
def FileInputStream.readByte (native : Nat → List UInt8 → Int → Int → Int × List UInt8)
    (fd : Option Nat) : Except JavaException Int :=
  match fd with
  | none => .error (.io "Stream closed")
  | some fd =>
      let (n, buf) := native fd [0] 0 1
      if n ≤ 0 then .ok (-1) else .ok (buf.getD 0 0).toNat

/-- `FileOutputStream.write(b, off, len)`. -/
def FileOutputStream.write (native : Nat → List UInt8 → Int → Int → Int)
    (fd : Option Nat) (b : Option (List UInt8)) (off len : Int) : Outcome Unit :=
  match fd with
  | none => .threw (.io "Stream closed") (b.getD [])
  | some fd =>
      match b with
      | none => .threw .nullPointer []
      | some b =>
          if outsideArray off len b then
            .threw .indexOutOfBounds b
          else if len = 0 then
            ⟨none, .ok (), b⟩
          else if native fd b off len < 0 then
            ⟨some (off, len), .error (.io "Write error"), b⟩
          else
            ⟨some (off, len), .ok (), b⟩

/-! ## What the streams promise -/

/-- How many bytes the file systems accept of a `file_write`. -/
def accepted (ends : BackEnds) (tables : Tables) (fd : Nat) (buf : List UInt8) (off len : Int) :
    Nat :=
  match SlotTable.lookup tables.files fd with
  | none => 0
  | some ctx =>
      if ctx.fs = .fatFs then
        match SlotTable.lookup tables.sdFiles ctx.sdFd with
        | none => 0
        | some file => (ends.fWrite file (buf.drop off.toNat) len).count
      else
        (ends.lfsFileWrite ctx.lfsFile (buf.drop off.toNat) len).r.toNat

/-- A write that returns normally was accepted in full. -/
def WritesInFull (ends : BackEnds) (tables : Tables) (fd : Nat) (b : Option (List UInt8))
    (off len : Int) : Prop :=
  (FileOutputStream.write (fileWrite ends tables) (some fd) b off len).result = .ok () →
    len = 0 ∨ ∃ array, b = some array ∧ (accepted ends tables fd array off len : Int) = len

/-- What `read(b, 0, 1)` says about one byte. -/
def oneByte (outcome : Outcome Int) : Except JavaException Int :=
  match outcome.result with
  | .error exception => .error exception
  | .ok n => .ok (if n = -1 then -1 else (outcome.array.getD 0 0).toNat)

/-- Both ways to read one byte agree. -/
def ReadsAlike (ends : BackEnds) (tables : Tables) (fd : Nat) (first : UInt8)
    (rest : List UInt8) : Prop :=
  FileInputStream.readByte (fileRead ends tables) (some fd) =
    oneByte (FileInputStream.read (fileRead ends tables) (some fd) (some (first :: rest)) 0 1)

/-- A file system accepts fewer bytes and reports no error. -/
inductive WriteShort (ends : BackEnds) (tables : Tables) (fd : Nat) (array : List UInt8)
    (off len : Int) : Prop
  | onLfs {ctx}
      (isUsed : SlotTable.lookup tables.files fd = some ctx)
      (isLfs : ctx.fs ≠ .fatFs)
      (noError : 0 ≤ (ends.lfsFileWrite ctx.lfsFile (array.drop off.toNat) len).r)
      (short : (ends.lfsFileWrite ctx.lfsFile (array.drop off.toNat) len).r < len)
  | onSd {ctx file}
      (isUsed : SlotTable.lookup tables.files fd = some ctx)
      (isSd : ctx.fs = .fatFs)
      (isOpen : SlotTable.lookup tables.sdFiles ctx.sdFd = some file)
      (noError : (ends.fWrite file (array.drop off.toNat) len).fr = 0)
      (short : ((ends.fWrite file (array.drop off.toNat) len).count : Int) < len)

/-- Reading a byte is an error: of the descriptor or of a file system. -/
inductive ReadFails (ends : BackEnds) (tables : Tables) (fd : Nat) : Prop
  | unused
      (isUnused : SlotTable.lookup tables.files fd = none)
  | onLfs {ctx}
      (isUsed : SlotTable.lookup tables.files fd = some ctx)
      (isLfs : ctx.fs ≠ .fatFs)
      (error : (ends.lfsFileRead ctx.lfsFile 1).r < 0)
  | gone {ctx}
      (isUsed : SlotTable.lookup tables.files fd = some ctx)
      (isSd : ctx.fs = .fatFs)
      (isGone : SlotTable.lookup tables.sdFiles ctx.sdFd = none)
  | onSd {ctx file}
      (isUsed : SlotTable.lookup tables.files fd = some ctx)
      (isSd : ctx.fs = .fatFs)
      (isOpen : SlotTable.lookup tables.sdFiles ctx.sdFd = some file)
      (error : (ends.fRead file 1).fr ≠ 0)

/-! ## Writing -/

section Streams

variable (ends : BackEnds) (tables : Tables) (fd : Nat)

theorem accepted_le
    (array : List UInt8) (off : Int) {len : Int}
    (nonneg : 0 ≤ len) :
    (accepted ends tables fd array off len : Int) ≤ len := by
  unfold accepted
  split
  · exact nonneg
  · split
    · split
      · exact nonneg
      · have bounded := (ends.fWrite (by assumption) (array.drop off.toNat) len).bounded
        omega
    · have bounded := (ends.lfsFileWrite (by assumption : FileCtx).lfsFile
        (array.drop off.toNat) len).bounded
      omega

/-- What a native that does not fail returns is what was accepted. -/
theorem writeShort_iff
    (array : List UInt8) (off len : Int) :
    WriteShort ends tables fd array off len ↔
      0 ≤ fileWrite ends tables fd array off len ∧
        (accepted ends tables fd array off len : Int) < len := by
  cases isUsed : SlotTable.lookup tables.files fd with
  | none =>
      constructor
      · rintro (⟨isUsed', _⟩ | ⟨isUsed', _⟩) <;> rw [isUsed] at isUsed' <;> cases isUsed'
      · rintro ⟨nonneg, _⟩
        rw [fileWrite, isUsed] at nonneg
        dsimp only at nonneg
        exact absurd nonneg (by decide)
  | some ctx =>
      by_cases isSd : ctx.fs = .fatFs
      · cases isOpen : SlotTable.lookup tables.sdFiles ctx.sdFd with
        | none =>
            simp only [fileWrite, sdFileWrite, isUsed, isSd, isOpen, if_true]
            constructor
            · rintro (⟨isUsed', isLfs, _⟩ | ⟨isUsed', _, isOpen', _⟩)
              · rw [isUsed, Option.some.injEq] at isUsed'
                exact absurd isSd (isUsed' ▸ isLfs)
              · rw [isUsed, Option.some.injEq] at isUsed'
                rw [← isUsed', isOpen] at isOpen'
                cases isOpen'
            · rintro ⟨nonneg, _⟩
              exact absurd nonneg (by decide)
        | some file =>
            simp only [fileWrite, sdFileWrite, accepted, isUsed, isSd, isOpen, if_true]
            constructor
            · rintro (⟨isUsed', isLfs, _⟩ | ⟨isUsed', _, isOpen', noError, short⟩)
              · rw [isUsed, Option.some.injEq] at isUsed'
                exact absurd isSd (isUsed' ▸ isLfs)
              · rw [isUsed, Option.some.injEq] at isUsed'
                rw [← isUsed', isOpen, Option.some.injEq] at isOpen'
                subst isOpen'
                rw [if_neg (by simp [noError])]
                exact ⟨Int.natCast_nonneg _, short⟩
            · rintro ⟨nonneg, short⟩
              split at nonneg
              · exact absurd nonneg (by decide)
              · rename_i noError
                exact .onSd isUsed isSd isOpen (not_not.mp noError) short
      · simp only [fileWrite, accepted, isUsed, isSd, if_false]
        constructor
        · rintro (⟨isUsed', _, noError, short⟩ | ⟨isUsed', isSd', _⟩)
          · rw [isUsed, Option.some.injEq] at isUsed'
            subst isUsed'
            rw [if_neg (by omega)]
            exact ⟨noError, by omega⟩
          · rw [isUsed, Option.some.injEq] at isUsed'
            exact absurd (isUsed' ▸ isSd') isSd
        · rintro ⟨nonneg, short⟩
          split at nonneg
          · exact absurd nonneg (by decide)
          · exact .onLfs isUsed isSd nonneg (by omega)

theorem outsideArray_eq_false_iff (off len : Int) (b : List UInt8) :
    outsideArray off len b = false ↔ 0 ≤ off ∧ 0 ≤ len ∧ signed (off + len) ≤ b.length := by
  simp [outsideArray, and_assoc]

theorem writesInFull_iff
    (b : Option (List UInt8)) (off len : Int) :
    WritesInFull ends tables fd b off len ↔
      ∀ array, b = some array → outsideArray off len array = false → len ≠ 0 →
        ¬ WriteShort ends tables fd array off len := by
  cases b with
  | none =>
      simp [WritesInFull, FileOutputStream.write, Outcome.threw]
  | some array =>
      simp only [WritesInFull, FileOutputStream.write, Option.some.injEq, writeShort_iff]
      by_cases outside : outsideArray off len array = true
      · simp [outside, Outcome.threw]
      · have inside : outsideArray off len array = false := by simpa using outside
        have nonneg := ((outsideArray_eq_false_iff off len array).mp inside).2.1
        have bounded := accepted_le ends tables fd array off nonneg
        rw [if_neg outside]
        by_cases empty : len = 0
        · simp [empty]
        · rw [if_neg empty]
          constructor
          · rintro inFull _ rfl _ _ ⟨noError, short⟩
            rw [if_neg (by omega)] at inFull
            rcases inFull rfl with zero | ⟨_, rfl, full⟩
            · exact empty zero
            · omega
          · intro neverShort normal
            split at normal
            · cases normal
            · rename_i noError
              refine .inr ⟨array, rfl, ?_⟩
              by_contra notFull
              exact neverShort array rfl inside empty ⟨by omega, by omega⟩

/-! ## Reading a byte -/

/-- The answer to a request for one byte, which does not depend on the array. -/
theorem fileRead_one :
    ∃ (n : Int) (byte : UInt8), (n < 0 ↔ ReadFails ends tables fd) ∧
      ∀ first rest, (fileRead ends tables fd (first :: rest) 0 1).1 = n ∧
        (0 < n → (fileRead ends tables fd (first :: rest) 0 1).2.getD 0 0 = byte) := by
  cases isUsed : SlotTable.lookup tables.files fd with
  | none =>
      refine ⟨-1, 0, ⟨fun _ => .unused isUsed, fun _ => by decide⟩, ?_⟩
      intro first rest
      simp [fileRead, isUsed]
  | some ctx =>
      have isSame : ∀ ctx', SlotTable.lookup tables.files fd = some ctx' → ctx' = ctx := by
        intro ctx' isUsed'
        rw [isUsed, Option.some.injEq] at isUsed'
        exact isUsed'.symm
      by_cases isSd : ctx.fs = .fatFs
      · cases isOpen : SlotTable.lookup tables.sdFiles ctx.sdFd with
        | none =>
            refine ⟨-1, 0, ⟨fun _ => .gone isUsed isSd isOpen, fun _ => by decide⟩, ?_⟩
            intro first rest
            simp [fileRead, sdFileRead, isUsed, isSd, isOpen]
        | some file =>
            have bounded := (ends.fRead file 1).bounded
            have filled := (ends.fRead file 1).filled
            refine ⟨if (ends.fRead file 1).fr ≠ 0 then -1 else (ends.fRead file 1).count,
              (ends.fRead file 1).bytes.getD 0 0, ?_, ?_⟩
            · constructor
              · intro negative
                split at negative
                · rename_i error
                  exact .onSd isUsed isSd isOpen error
                · omega
              · rintro (isUnused | ⟨isUsed', isLfs, _⟩ | ⟨isUsed', _, isGone⟩ |
                  ⟨isUsed', _, isOpen', error⟩)
                · rw [isUsed] at isUnused
                  cases isUnused
                · exact absurd isSd (isSame _ isUsed' ▸ isLfs)
                · rw [isSame _ isUsed', isOpen] at isGone
                  cases isGone
                · rw [isSame _ isUsed', isOpen, Option.some.injEq] at isOpen'
                  rw [isOpen', if_pos error]
                  decide
            · intro first rest
              simp only [fileRead, sdFileRead, isUsed, isSd, isOpen, if_true]
              split
              · exact ⟨rfl, fun positive => absurd positive (by decide)⟩
              · refine ⟨rfl, fun positive => ?_⟩
                obtain ⟨byte, isOne⟩ := List.length_eq_one_iff.mp
                  (show (ends.fRead file 1).bytes.length = 1 by omega)
                rw [isOne]
                rfl
      · have bounded := (ends.lfsFileRead ctx.lfsFile 1).bounded
        have filled := (ends.lfsFileRead ctx.lfsFile 1).filled
        refine ⟨if (ends.lfsFileRead ctx.lfsFile 1).r < 0 then -1
          else (ends.lfsFileRead ctx.lfsFile 1).r,
          (ends.lfsFileRead ctx.lfsFile 1).bytes.getD 0 0, ?_, ?_⟩
        · constructor
          · intro negative
            split at negative
            · rename_i error
              exact .onLfs isUsed isSd error
            · omega
          · rintro (isUnused | ⟨isUsed', _, error⟩ | ⟨isUsed', isSd', _⟩ | ⟨isUsed', isSd', _⟩)
            · rw [isUsed] at isUnused
              cases isUnused
            · rw [isSame _ isUsed'] at error
              rw [if_pos error]
              decide
            · exact absurd (isSame _ isUsed' ▸ isSd') isSd
            · exact absurd (isSame _ isUsed' ▸ isSd') isSd
        · intro first rest
          simp only [fileRead, isUsed, isSd, if_false]
          refine ⟨trivial, fun positive => ?_⟩
          split at positive
          · exact absurd positive (by decide)
          · obtain ⟨byte, isOne⟩ := List.length_eq_one_iff.mp
              (show (ends.lfsFileRead ctx.lfsFile 1).bytes.length = 1 by omega)
            rw [isOne]
            rfl

theorem readsAlike_iff
    (first : UInt8) (rest : List UInt8) :
    ReadsAlike ends tables fd first rest ↔ ¬ ReadFails ends tables fd := by
  obtain ⟨n, byte, fails, answers⟩ := fileRead_one ends tables fd
  have inside : outsideArray 0 1 (first :: rest) = false := by
    rw [outsideArray_eq_false_iff]
    refine ⟨by decide, by decide, ?_⟩
    rw [signed_of_inRange (by decide), List.length_cons]
    omega
  obtain ⟨single, singleByte⟩ := answers 0 []
  obtain ⟨many, manyByte⟩ := answers first rest
  rw [ReadsAlike, FileInputStream.readByte, FileInputStream.read, ← fails]
  dsimp only
  rw [single, many, inside, if_neg Bool.false_ne_true, if_neg (show ¬ (1 : Int) = 0 by decide)]
  rcases Int.lt_trichotomy n 0 with negative | zero | positive
  · rw [if_pos negative.le, if_neg negative.ne, if_pos negative]
    simp [oneByte, negative]
  · rw [if_pos zero.le, if_pos zero]
    simp [oneByte, zero]
  · rw [if_neg (by omega), if_neg (by omega), if_neg (by omega)]
    have notEnd : n ≠ -1 := by omega
    simp only [oneByte, singleByte positive, manyByte positive, if_neg notEnd, true_iff]
    omega

/-- A write is accepted in full when it returns normally and both ways to read a byte agree, if
and only if the file systems accept no fewer bytes than they are given without an error, and
reading the byte is no error. -/
theorem streams_keep_contract_iff
    (b : Option (List UInt8)) (off len : Int)
    (first : UInt8) (rest : List UInt8) :
    (WritesInFull ends tables fd b off len ∧ ReadsAlike ends tables fd first rest) ↔
      (∀ array, b = some array → outsideArray off len array = false → len ≠ 0 →
        ¬ WriteShort ends tables fd array off len) ∧ ¬ ReadFails ends tables fd := by
  rw [writesInFull_iff, readsAlike_iff]

end Streams

/-- LittleFS has room for one byte less than it is given, and cannot read. -/
def fullAndBroken : BackEnds where
  lfsFileRead _ len :=
    ⟨⟨min (-1) len, Int.min_le_right _ _⟩, [],
      fun nonneg => absurd (Int.le_trans nonneg (Int.min_le_left (-1) len)) (by decide)⟩
  lfsFileWrite _ _ len := ⟨len - 1, by omega⟩
  fRead _ _ := ⟨⟨1, 0, by omega⟩, [], rfl⟩
  fWrite _ _ _ := ⟨1, 0, by omega⟩

/-- One stream of LittleFS is open. -/
def oneStream : Tables :=
  { Tables.initial with
    files := [some { fs := .lfs, lfsFile := some 0 }, none, none, none]
    streams := [some 0] }

/-- Of two bytes one is written and nothing is thrown; a byte cannot be read, which one way to
read takes for the end of the file. -/
theorem full_and_broken_streams :
    ¬ (∀ (ends : BackEnds) (tables : Tables) (fd : Nat) (b : Option (List UInt8)) (off len : Int),
        WritesInFull ends tables fd b off len) ∧
      ¬ ∀ (ends : BackEnds) (tables : Tables) (fd : Nat) (first : UInt8) (rest : List UInt8),
        ReadsAlike ends tables fd first rest := by
  constructor
  · intro always
    have short := always fullAndBroken oneStream 0 (some [1, 2]) 0 2
    rcases short rfl with zero | ⟨array, isArray, full⟩
    · exact absurd zero (by decide)
    · rw [Option.some.injEq] at isArray
      subst isArray
      exact absurd full (by decide)
  · intro always
    exact absurd (always fullAndBroken oneStream 0 0 []) (by unfold ReadsAlike; decide)

end PicoJvm.Files
