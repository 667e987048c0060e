import PicoJvm.Lib.Machine
import PicoJvm.Lib.Ring
import PicoJvm.Lib.Transducer

/-!
# Buffered files

A `BufferedFile` reads an open file through a buffer. Where it stands in the file is spread
over `file_pos`, which is the place behind the buffer, and over the index and the count of
the buffer; the operating system has a position of its own.
-/

namespace PicoJvm.Files

open PicoJvm.Lib
open PicoJvm.Lib.Machine

/-- `SEEK_SET`, `SEEK_CUR` and `SEEK_END`. -/
inductive Origin
  | set
  | cur
  | fromEnd
  deriving DecidableEq, Repr

/-! ## Files of the operating system -/

/-- An open `OsFile`, whose position is always inside. -/
structure OsFile where
  data : List UInt8
  pos : Nat
  pos_le : pos ≤ data.length
  deriving DecidableEq

namespace OsFile

/-- The file as `OsFile_open` leaves it. -/
def opened (data : List UInt8) : OsFile :=
  ⟨data, 0, Nat.zero_le _⟩

/-- The end of `OsFile_seek`: a position outside is moved to the nearer end. -/
def moveTo (file : OsFile) (target : Int) : OsFile :=
  ⟨file.data, clamp file.data.length target, clamp_le _ _⟩

/-- `OsFile_seek`. -/
def seek (file : OsFile) (offset : Int) : Origin → OsFile
  | .cur => file.moveTo (signed (file.pos + offset))
  | .set => file.moveTo offset
  | .fromEnd => file.moveTo (signed (file.data.length + offset))

/-- `OsFile_read`. -/
def read (file : OsFile) (req : Nat) : List UInt8 × OsFile :=
  let bytes := (file.data.drop file.pos).take req
  (bytes, file.moveTo (file.pos + bytes.length : Nat))

end OsFile

/-! ## The buffer -/

/-- `BufferedFile`. -/
structure BufferedFile where
  filePointer : OsFile
  atEof : Bool
  dataBuffer : List UInt8
  bufferSize : Nat
  fileSize : Int
  filePos : Int
  index : Int
  count : Int
  deriving DecidableEq

/-- How reading goes wrong: a negative number of bytes is copied, or reading has no end. -/
inductive Fault
  | negativeCopy
  | unfinished
  deriving DecidableEq, Repr

namespace BufferedFile

/-- A file behind `open`, `init` and `new_buffer`. -/
def opened (data : List UInt8) (bufferSize : Nat) : BufferedFile :=
  { filePointer := .opened data, atEof := false
    dataBuffer := List.replicate bufferSize 0, bufferSize
    fileSize := data.length, filePos := 0, index := 0, count := 0 }

variable (file : BufferedFile)

/-- `last_unread_file_pos`. -/
def lastUnreadFilePos : Int :=
  file.filePos - (file.count - file.index)

/-- `refill_buffer`. -/
def refillBuffer : BufferedFile :=
  if file.atEof then
    file
  else
    let max := signed (file.fileSize - file.filePos)
    let bytesToRead := if file.bufferSize > max then max else file.bufferSize
    let (bytes, filePointer) :=
      (file.filePointer.seek file.filePos .set).read (unsigned bytesToRead)
    { file with
      filePointer
      dataBuffer := Ring.overwrite file.dataBuffer 0 bytes
      count := bytes.length
      filePos := signed (file.filePos + bytes.length)
      index := 0
      atEof := decide (bytes.length ≤ 0) }

/-- The loop of `get_bytes`, for so many rounds. -/
def readBuffered : Nat → Int → BufferedFile → Except Fault (List UInt8 × BufferedFile)
  | 0, _, _ => .error .unfinished
  | rounds + 1, num, file =>
      if file.atEof = false ∧ num > 0 then
        let numToRead :=
          if num > file.count - file.index then file.count - file.index else num
        if numToRead < 0 then
          .error .negativeCopy
        else
          let bytes := (file.dataBuffer.drop file.index.toNat).take numToRead.toNat
          let copied := { file with index := file.index + numToRead }
          let rest := num - numToRead
          let ready := if rest > 0 then copied.refillBuffer else copied
          match readBuffered rounds rest ready with
          | .error fault => .error fault
          | .ok (more, last) => .ok (bytes ++ more, last)
      else
        .ok ([], file)

/-- `get_bytes`. The loop copies in every round but the first one, unless it ends. -/
def getBytes (num : Nat) (isBuffered : Bool) : Except Fault (List UInt8 × BufferedFile) :=
  if isBuffered then
    readBuffered (num + 2) num file
  else
    let (bytes, filePointer) :=
      (file.filePointer.seek (-(file.count - file.index)) .cur).read num
    .ok (bytes, { file with filePointer, count := 0, index := 0 })

/-- The end of `seek`, behind the ways that stay in the buffer. -/
def seekOutside (offset : Int) (origin : Origin) : BufferedFile :=
  { file with
    count := 0
    index := 0
    atEof := if file.filePos < file.fileSize then false else file.atEof
    filePointer := file.filePointer.seek offset origin }

/-- `seek`, which returns zero whatever happens. -/
def seek (offset : Int) : Origin → BufferedFile
  | .cur =>
      if file.count > 0 then
        let target := signed (offset + file.index)
        if target ≥ 0 ∧ target < file.count then
          { file with index := target }
        else
          let offset := signed (offset - (file.count - file.index))
          { file with filePos := signed (file.filePos + offset) }.seekOutside offset .cur
      else
        file.seekOutside offset .cur
  | .set =>
      if file.count > 0 ∧ offset ≥ file.filePos - file.count ∧ offset < file.filePos then
        { file with index := file.count - (file.filePos - offset) }
      else
        { file with filePos := offset }.seekOutside offset .set
  | .fromEnd =>
      let target := signed (file.count + offset)
      if file.count > 0 ∧ file.count = file.fileSize ∧ target ≥ 0 then
        { file with index := target }
      else
        { file with filePos := signed (file.fileSize + offset) }.seekOutside offset .fromEnd

end BufferedFile

/-! ## A plain cursor -/

/-- A place in a file, without a buffer. -/
structure Cursor where
  data : List UInt8
  pos : Nat
  deriving DecidableEq, Repr

namespace Cursor

variable (cursor : Cursor)

def read (num : Nat) : List UInt8 × Cursor :=
  let bytes := (cursor.data.drop cursor.pos).take num
  (bytes, { cursor with pos := cursor.pos + bytes.length })

/-- The place an offset is counted from. -/
def origin : Origin → Nat
  | .set => 0
  | .cur => cursor.pos
  | .fromEnd => cursor.data.length

def seek (offset : Int) (from' : Origin) : Cursor :=
  { cursor with pos := clamp cursor.data.length (cursor.origin from' + offset) }

end Cursor

/-- The calls of a reader. -/
inductive Call
  | getBytes (num : Nat) (isBuffered : Bool)
  | seek (offset : Int32) (origin : Origin)
  deriving DecidableEq

inductive Answer
  | bytes (bytes : List UInt8)
  | result (code : Int)
  | fault (fault : Fault)
  deriving DecidableEq, Repr

def Cursor.respond (cursor : Cursor) : Call → Answer × Cursor
  | .getBytes num _ => (.bytes (cursor.read num).1, (cursor.read num).2)
  | .seek offset origin => (.result 0, cursor.seek offset.toInt origin)

namespace BufferedFile

variable (file : BufferedFile)

def respond : Call → Answer × BufferedFile
  | .getBytes num isBuffered =>
      match file.getBytes num isBuffered with
      | .ok (bytes, next) => (.bytes bytes, next)
      | .error fault => (.fault fault, file)
  | .seek offset origin => (.result 0, file.seek offset.toInt origin)

/-- Where the file stands, clamped as a cursor is. -/
def position : Nat :=
  clamp file.filePointer.data.length file.lastUnreadFilePos

/-- The condition on a call: a buffered read needs a buffer, an index inside it and a place
that is not before the file; an unbuffered one must end where the buffer ends; `SEEK_CUR` needs
something in the buffer unless it stays where it is; and sums must not overflow. -/
def Supports : Call → Prop
  | .getBytes num true =>
      num > 0 → file.atEof = false → file.index ≤ file.count ∧
        ((file.position : Int) < file.fileSize → 0 < file.bufferSize ∧ 0 ≤ file.filePos)
  | .getBytes num false =>
      clamp file.filePointer.data.length file.filePos =
        min (file.position + num) file.filePointer.data.length
  | .seek offset .cur =>
      if file.count > 0 then
        InRange (file.lastUnreadFilePos + offset.toInt) ∧
          (file.index ≤ file.count ∨ 0 ≤ offset.toInt)
      else
        InRange (file.position + offset.toInt) ∧
          clamp file.filePointer.data.length (file.position + offset.toInt) = file.position
  | .seek _ .set => True
  | .seek offset .fromEnd => InRange (file.fileSize + offset.toInt)

instance : DecidablePred (Supports file)
  | .getBytes _ true => inferInstanceAs (Decidable (_ → _))
  | .getBytes _ false => inferInstanceAs (Decidable (_ = _))
  | .seek _ .cur => inferInstanceAs (Decidable (ite _ _ _))
  | .seek _ .set => instDecidableTrue
  | .seek _ .fromEnd => inferInstanceAs (Decidable (InRange _))

end BufferedFile

/-! ## How the buffer stands to the cursor -/

theorem Cursor.read_add (cursor : Cursor) (num num' : Nat) :
    (cursor.read (num + num')).1 =
        (cursor.read num).1 ++ ((cursor.read num).2.read num').1 ∧
      (cursor.read (num + num')).2 = ((cursor.read num).2.read num').2 := by
  have bytes : (cursor.read (num + num')).1 =
      (cursor.read num).1 ++ ((cursor.read num).2.read num').1 := by
    simp only [read, List.take_add, List.drop_drop]
    congr 2
    rw [List.length_take, List.length_drop]
    rcases Nat.lt_or_ge (cursor.data.length - cursor.pos) num with short | enough
    · rw [List.drop_of_length_le (by omega), List.drop_of_length_le (by omega)]
    · rw [Nat.min_eq_left enough]
  refine ⟨bytes, ?_⟩
  have length := congrArg List.length bytes
  rw [List.length_append] at length
  simp only [read] at length ⊢
  rw [length, Nat.add_assoc]

namespace BufferedFile

/-- The buffer holds a part of the file that ends at `file_pos`, and the position of the
operating system is there too. -/
structure Tracks (file : BufferedFile) (cursor : Cursor) : Prop where
  data : file.filePointer.data = cursor.data
  size : file.fileSize = cursor.data.length
  bufLength : file.dataBuffer.length = file.bufferSize
  position : cursor.pos = clamp cursor.data.length file.lastUnreadFilePos
  system : file.filePointer.pos = clamp cursor.data.length file.filePos
  inRange : InRange file.filePos
  index_nonneg : 0 ≤ file.index
  unread : InRange file.lastUnreadFilePos
  count_nonneg : 0 ≤ file.count
  eof : file.atEof = true → file.count = 0 ∧ cursor.pos = cursor.data.length
  empty : file.count = 0 → file.index = 0
  held : 0 < file.count → file.filePos ≤ cursor.data.length ∧ file.count ≤ file.filePos
  contents : file.dataBuffer.take file.count.toNat =
    (cursor.data.drop (file.filePos - file.count).toNat).take file.count.toNat

theorem opened_tracks
    (data : List UInt8)
    (bufferSize : Nat) :
    Tracks (opened data bufferSize) ⟨data, 0⟩ where
  data := rfl
  size := rfl
  bufLength := List.length_replicate
  position := by
    simp [opened, lastUnreadFilePos, clamp]
  system := by
    simp [opened, OsFile.opened, clamp]
  inRange := (by decide : InRange 0)
  index_nonneg := Int.le_refl 0
  unread := (by decide : InRange 0)
  count_nonneg := Int.le_refl 0
  eof := by
    intro atEof
    cases atEof
  empty := by
    intro _
    rfl
  held := by
    intro positive
    cases positive
  contents := by
    simp [opened]

namespace Tracks

variable {file : BufferedFile} {cursor : Cursor}

theorem position_eq (tracks : Tracks file cursor) : file.position = cursor.pos := by
  rw [BufferedFile.position, tracks.data, tracks.position]

/-- With something in the buffer the cursor is at the index, as long as that is inside. -/
theorem pos_of_held
    (tracks : Tracks file cursor)
    (positive : 0 < file.count)
    (inside : file.index ≤ file.count) :
    (cursor.pos : Int) = file.filePos - file.count + file.index := by
  have held := tracks.held positive
  have nonneg := tracks.index_nonneg
  rw [tracks.position, clamp_cast]
  unfold lastUnreadFilePos
  omega

/-- Bytes of the buffer are bytes at the cursor. -/
theorem copy
    (tracks : Tracks file cursor)
    {num : Nat}
    (inside : num ≤ file.count - file.index) :
    (file.dataBuffer.drop file.index.toNat).take num = (cursor.read num).1 ∧
      Tracks { file with index := file.index + num } (cursor.read num).2 := by
  have index_nonneg := tracks.index_nonneg
  have inRange := tracks.inRange
  unfold InRange at inRange
  rcases Int.lt_or_eq_of_le tracks.count_nonneg with positive | none
  · have held := tracks.held positive
    have pos := tracks.pos_of_held positive (by omega)
    have cut : ∀ bytes : List UInt8,
        (bytes.drop file.index.toNat).take num =
          ((bytes.take file.count.toNat).drop file.index.toNat).take num := by
      intro bytes
      rw [List.drop_take, List.take_take]
      congr 1
      omega
    have bytes : (file.dataBuffer.drop file.index.toNat).take num = (cursor.read num).1 := by
      rw [cut, tracks.contents, ← cut, List.drop_drop]
      simp only [Cursor.read]
      congr 2
      omega
    have length : (cursor.read num).1.length = num := by
      simp only [Cursor.read, List.length_take, List.length_drop]
      omega
    refine ⟨bytes, tracks.data, tracks.size, tracks.bufLength, ?_, tracks.system, tracks.inRange,
      ?_, ?_, tracks.count_nonneg, ?_, ?_, tracks.held, tracks.contents⟩
    · apply Int.ofNat.inj
      simp only [Cursor.read] at length ⊢
      rw [length]
      change ((cursor.pos + num : Nat) : Int) = (clamp _ _ : Int)
      rw [clamp_cast]
      unfold lastUnreadFilePos
      dsimp only
      omega
    · change 0 ≤ file.index + num
      omega
    · change InRange (file.filePos - (file.count - (file.index + num)))
      unfold InRange
      omega
    · intro atEof
      have := (tracks.eof atEof).1
      omega
    · intro none
      dsimp only at none
      omega
  · have first := tracks.empty none.symm
    obtain rfl : num = 0 := by omega
    refine ⟨by simp [Cursor.read], ?_⟩
    simpa [Cursor.read] using tracks

/-- What `refill_buffer` reads is what follows at the cursor. -/
theorem read_at
    (tracks : Tracks file cursor)
    (used : file.index = file.count)
    (req : Nat) :
    ((file.filePointer.seek file.filePos .set).read req).1 = (cursor.read req).1 ∧
      ((file.filePointer.seek file.filePos .set).read req).2.data = cursor.data ∧
        ((file.filePointer.seek file.filePos .set).read req).2.pos =
          (cursor.read req).2.pos := by
  have pos : clamp cursor.data.length file.filePos = cursor.pos := by
    rw [tracks.position, lastUnreadFilePos, used, Int.sub_self, Int.sub_zero]
  have inside : cursor.pos + (cursor.read req).1.length ≤ cursor.data.length := by
    have := clamp_le cursor.data.length file.filePos
    simp only [Cursor.read, List.length_take, List.length_drop]
    omega
  simp only [OsFile.read, OsFile.seek, OsFile.moveTo, tracks.data, pos]
  exact ⟨rfl, trivial, clamp_of_le inside⟩

/-- The buffer is filled with what follows in the file. -/
theorem refill
    (tracks : Tracks file cursor)
    (small : cursor.data.length < 2147483648)
    (used : file.index = file.count)
    (notEof : file.atEof = false)
    (more : cursor.pos < cursor.data.length → 0 < file.bufferSize ∧ 0 ≤ file.filePos) :
    Tracks file.refillBuffer cursor ∧
      (file.refillBuffer.atEof = true ∨ file.refillBuffer.index < file.refillBuffer.count) := by
  have inRange := tracks.inRange
  have position : (cursor.pos : Int) = max 0 (min file.filePos cursor.data.length) := by
    rw [tracks.position, clamp_cast, lastUnreadFilePos, used, Int.sub_self, Int.sub_zero]
  unfold refillBuffer
  rw [notEof, tracks.size]
  simp only [Bool.false_eq_true, if_false]
  generalize reqEq : unsigned _ = req
  obtain ⟨bytes, data, pos⟩ := tracks.read_at used req
  have length : (cursor.read req).1.length = min req (cursor.data.length - cursor.pos) := by
    simp [Cursor.read]
  have posAfter : (cursor.read req).2.pos = cursor.pos + (cursor.read req).1.length := rfl
  rw [bytes]
  rcases Nat.lt_or_ge cursor.pos cursor.data.length with before | atEnd
  · obtain ⟨room, nonneg⟩ := more before
    have samePos : file.filePos = cursor.pos := by omega
    have maxEq : signed (cursor.data.length - file.filePos) =
        cursor.data.length - file.filePos := by
      apply signed_of_inRange
      unfold InRange
      omega
    have req_eq : (req : Int) = min file.bufferSize (cursor.data.length - cursor.pos) := by
      rw [← reqEq, maxEq]
      split
      · rw [unsigned_of_nonneg (by omega) (by omega)]
        omega
      · rw [unsigned_of_nonneg (by omega) (by omega)]
        omega
    have countEq : (cursor.read req).1.length = req := by omega
    have reqBounds : 0 < req ∧ (req : Int) ≤ file.bufferSize ∧
        cursor.pos + req ≤ cursor.data.length := by omega
    clear position more length maxEq reqEq req_eq
    have filePosEq : signed (file.filePos + (cursor.read req).1.length) = cursor.pos + req := by
      rw [countEq, samePos]
      apply signed_of_inRange
      unfold InRange
      omega
    rw [filePosEq, countEq]
    refine ⟨⟨data, rfl, ?_, ?_, ?_, ?_, Int.le_refl 0, ?_, ?_, ?_, ?_, ?_, ?_⟩, ?_⟩
    · refine (Ring.overwrite_length ?_).trans tracks.bufLength
      rw [countEq, tracks.bufLength]
      omega
    · apply Int.ofNat.inj
      change (cursor.pos : Int) = (clamp _ _ : Int)
      rw [clamp_cast]
      unfold lastUnreadFilePos
      dsimp only
      omega
    · change ((file.filePointer.seek file.filePos .set).read req).2.pos = _
      rw [pos, posAfter, countEq]
      apply Int.ofNat.inj
      change ((cursor.pos + req : Nat) : Int) = (clamp _ _ : Int)
      rw [clamp_cast]
      dsimp only
      omega
    · dsimp only
      unfold InRange
      omega
    · change InRange (cursor.pos + req - (req - 0))
      unfold InRange
      omega
    · dsimp only
      omega
    · intro atEof
      simp only [decide_eq_true_eq] at atEof
      omega
    · intro _
      rfl
    · intro _
      change (cursor.pos : Int) + req ≤ cursor.data.length ∧ (req : Int) ≤ cursor.pos + req
      omega
    · have start : ((cursor.pos : Int) + req - req).toNat = cursor.pos := by omega
      dsimp only
      rw [start, Int.toNat_natCast, Ring.overwrite, List.take_zero, List.nil_append,
        List.take_left' countEq]
      rfl
    · right
      omega
  · have none : (cursor.read req).1 = [] := List.length_eq_zero_iff.mp (by omega)
    have filePosEq : signed (file.filePos + (0 : Nat)) = file.filePos := by
      rw [Int.natCast_zero, Int.add_zero, signed_of_inRange inRange]
    have buffer : Ring.overwrite file.dataBuffer 0 [] = file.dataBuffer := by
      simp [Ring.overwrite]
    rw [none, List.length_nil, filePosEq, buffer]
    refine ⟨⟨data, rfl, tracks.bufLength, ?_, ?_, inRange, Int.le_refl 0, ?_, Int.le_refl 0, ?_,
      ?_, ?_, ?_⟩, ?_⟩
    · rw [tracks.position, lastUnreadFilePos, used, Int.sub_self]
      rfl
    · change ((file.filePointer.seek file.filePos .set).read req).2.pos = _
      rw [pos, posAfter, none, ← tracks.system]
      apply Int.ofNat.inj
      change (cursor.pos : Int) = (file.filePointer.pos : Int)
      rw [tracks.system, clamp_cast]
      omega
    · simpa [lastUnreadFilePos] using inRange
    · intro _
      refine ⟨rfl, ?_⟩
      omega
    · intro _
      rfl
    · intro positive
      cases positive
    · rfl
    · left
      rfl

theorem refillBuffer_bufferSize (file : BufferedFile) :
    file.refillBuffer.bufferSize = file.bufferSize := by
  unfold refillBuffer
  split <;> rfl

/-- The loop reads what the cursor reads, with a round more than there are bytes, and one more
when the buffer is used up. -/
theorem readBuffered_spec
    (rounds : Nat)
    {file : BufferedFile} {cursor : Cursor}
    (tracks : Tracks file cursor)
    (small : cursor.data.length < 2147483648)
    (num : Nat)
    (supports : num > 0 → file.atEof = false → file.index ≤ file.count ∧
      (cursor.pos < cursor.data.length → 0 < file.bufferSize ∧ 0 ≤ file.filePos))
    (some : 0 < rounds)
    (enough : num > 0 →
      num + 1 + (if file.atEof = false ∧ file.index = file.count then 1 else 0) ≤ rounds) :
    ∃ last, readBuffered rounds num file = .ok ((cursor.read num).1, last) ∧
      Tracks last (cursor.read num).2 := by
  induction rounds generalizing file cursor num with
  | zero =>
      omega
  | succ rounds inductionHypothesis =>
      unfold readBuffered
      split
      · rename_i goesOn
        obtain ⟨notEof, positive⟩ := goesOn
        have numPositive : num > 0 := by omega
        obtain ⟨inside, more⟩ := supports numPositive notEof
        have bound := enough numPositive
        obtain ⟨count, countEq⟩ : ∃ count : Nat, (count : Int) =
            if (num : Int) > file.count - file.index then file.count - file.index else num :=
          ⟨_, Int.toNat_of_nonneg (by split <;> omega)⟩
        have countLe : count ≤ num := by
          split at countEq <;> omega
        have countInside : (count : Int) ≤ file.count - file.index := by
          split at countEq <;> omega
        have restEq : (num : Int) - count = (num - count : Nat) := by omega
        obtain ⟨bytes, copied⟩ := tracks.copy countInside
        obtain ⟨first, second⟩ := cursor.read_add count (num - count)
        rw [Nat.add_sub_cancel' countLe] at first second
        dsimp only
        rw [← countEq, if_neg (by omega), Int.toNat_natCast, bytes, restEq, first, second]
        rcases Nat.eq_zero_or_pos (num - count) with done | rest
        · rw [done, if_neg (by omega)]
          obtain ⟨last, ran, tracked⟩ := inductionHypothesis copied small 0
            (fun positive => absurd positive (by omega)) (by omega)
            (fun positive => absurd positive (by omega))
          rw [ran]
          exact ⟨last, rfl, tracked⟩
        · have used : file.index + count = file.count := by
            split at countEq <;> omega
          obtain ⟨refilled, filled⟩ := copied.refill small used notEof
            (fun before => more (Nat.lt_of_le_of_lt (Nat.le_add_right _ _) before))
          rw [if_pos (by omega)]
          generalize nextEq : refillBuffer _ = next at refilled filled ⊢
          have sameSize : next.bufferSize = file.bufferSize := by
            rw [← nextEq, refillBuffer_bufferSize]
          have index_nonneg := refilled.index_nonneg
          have count_nonneg := refilled.count_nonneg
          obtain ⟨last, ran, tracked⟩ := inductionHypothesis refilled small (num - count)
            (by
              intro _ notEof'
              have unread : next.index < next.count := by
                simpa [notEof'] using filled
              have held := refilled.held (by omega)
              refine ⟨by omega, ?_⟩
              intro before
              rw [sameSize]
              exact ⟨(more (Nat.lt_of_le_of_lt (Nat.le_add_right _ _) before)).1, by omega⟩)
            (by omega)
            (by
              intro _
              have noMore : ¬ (next.atEof = false ∧ next.index = next.count) := by
                rintro ⟨notEof', same⟩
                rcases filled with atEof | unread
                · rw [atEof] at notEof'
                  cases notEof'
                · omega
              rw [if_neg noMore]
              rcases Nat.eq_zero_or_pos count with none | some
              · rw [if_pos ⟨notEof, by omega⟩] at bound
                omega
              · omega)
          rw [ran]
          exact ⟨last, rfl, tracked⟩
      · rename_i ends
        have nothing : (cursor.read num).1 = [] := by
          rcases Nat.eq_zero_or_pos num with none | positive
          · simp [Cursor.read, none]
          · have atEof : file.atEof = true := by
              cases atEof : file.atEof with
              | true => rfl
              | false => exact absurd ⟨atEof, by omega⟩ ends
            simp [Cursor.read, (tracks.eof atEof).2]
        have same : (cursor.read num).2 = cursor := by
          unfold Cursor.read at nothing ⊢
          dsimp only at nothing ⊢
          rw [nothing]
          rfl
        rw [nothing, same]
        exact ⟨file, rfl, tracks⟩

/-- A buffered read. -/
theorem getBytes_buffered
    (tracks : Tracks file cursor)
    (small : cursor.data.length < 2147483648)
    {num : Nat}
    (supports : file.Supports (.getBytes num true)) :
    ∃ last, file.getBytes num true = .ok ((cursor.read num).1, last) ∧
      Tracks last (cursor.read num).2 := by
  unfold getBytes
  rw [if_pos rfl]
  refine readBuffered_spec (num + 2) tracks small num ?_ (by omega) ?_
  · intro positive notEof
    obtain ⟨inside, more⟩ := supports positive notEof
    rw [tracks.position_eq, tracks.size] at more
    exact ⟨inside, fun before => more (by omega)⟩
  · intro _
    split <;> omega

/-- The position of the operating system lies behind the buffer. -/
theorem system_of_held
    (tracks : Tracks file cursor)
    (positive : 0 < file.count) :
    (file.filePointer.pos : Int) = file.filePos := by
  have held := tracks.held positive
  rw [tracks.system, clamp_cast]
  omega

/-- Without a buffer the position of the operating system is that of the cursor. -/
theorem system_of_empty
    (tracks : Tracks file cursor)
    (none : file.count = 0) :
    file.filePointer.pos = cursor.pos := by
  rw [tracks.system, tracks.position, lastUnreadFilePos, none, tracks.empty none, Int.sub_self,
    Int.sub_zero]

/-- Going back over what is left in the buffer leads to the cursor. -/
theorem seek_back
    (tracks : Tracks file cursor) :
    (file.filePointer.seek (-(file.count - file.index)) .cur).pos = cursor.pos := by
  have inRange := tracks.inRange
  unfold InRange at inRange
  simp only [OsFile.seek, OsFile.moveTo, tracks.data]
  rcases Int.lt_or_eq_of_le tracks.count_nonneg with positive | none
  · have place : (file.filePointer.pos : Int) + -(file.count - file.index) =
        file.lastUnreadFilePos := by
      rw [tracks.system_of_held positive]
      exact (Int.sub_eq_add_neg).symm
    rw [place, signed_of_inRange tracks.unread, tracks.position]
  · have system := tracks.system_of_empty none.symm
    have bound := congrArg Int.ofNat tracks.system
    change (file.filePointer.pos : Int) = (clamp _ _ : Int) at bound
    rw [clamp_cast] at bound
    rw [← none, tracks.empty none.symm, Int.sub_self, Int.neg_zero, Int.add_zero,
      signed_of_inRange (by unfold InRange; omega), clamp_of_le (by omega), system]

/-- An unbuffered read up to the end of the buffer. -/
theorem getBytes_unbuffered
    (tracks : Tracks file cursor)
    {num : Nat}
    (supports : file.Supports (.getBytes num false)) :
    ∃ last, file.getBytes num false = .ok ((cursor.read num).1, last) ∧
      Tracks last (cursor.read num).2 := by
  have inside : cursor.pos ≤ cursor.data.length := by
    rw [tracks.position]
    exact clamp_le _ _
  have ends : clamp cursor.data.length file.filePos =
      min (cursor.pos + num) cursor.data.length := by
    rw [← tracks.position_eq, ← tracks.data]
    exact supports
  have data : (file.filePointer.seek (-(file.count - file.index)) .cur).data = cursor.data :=
    tracks.data
  have length : (cursor.read num).1.length = min num (cursor.data.length - cursor.pos) := by
    simp [Cursor.read]
  have read : ((file.filePointer.seek (-(file.count - file.index)) .cur).read num).1 =
      (cursor.read num).1 := by
    simp only [OsFile.read, tracks.seek_back, data, Cursor.read]
  have place : ((file.filePointer.seek (-(file.count - file.index)) .cur).read num).2.pos =
      (cursor.read num).2.pos := by
    change clamp _ (((file.filePointer.seek (-(file.count - file.index)) .cur).pos +
      ((file.filePointer.seek (-(file.count - file.index)) .cur).read num).1.length : Nat) : Int) = _
    rw [read, tracks.seek_back, data, clamp_of_le (by omega)]
    rfl
  have final : (cursor.read num).2.pos = clamp cursor.data.length file.filePos := by
    rw [ends]
    change cursor.pos + (cursor.read num).1.length = _
    omega
  refine ⟨{ file with
    filePointer := ((file.filePointer.seek (-(file.count - file.index)) .cur).read num).2
    count := 0, index := 0 }, ?_, ?_⟩
  · simp only [getBytes, Bool.false_eq_true, if_false]
    rw [read]
  · refine ⟨data, tracks.size, tracks.bufLength, ?_, ?_, tracks.inRange, Int.le_refl 0, ?_,
      Int.le_refl 0, ?_, fun _ => rfl, ?_, rfl⟩
    · change (cursor.read num).2.pos = clamp cursor.data.length (file.filePos - (0 - 0))
      rw [final, Int.sub_self, Int.sub_zero]
    · exact place.trans final
    · simpa [lastUnreadFilePos] using tracks.inRange
    · intro atEof
      refine ⟨rfl, ?_⟩
      have := (tracks.eof atEof).2
      change cursor.pos + (cursor.read num).1.length = cursor.data.length
      omega
    · intro positive
      cases positive

/-- Moving the index. -/
theorem withIndex
    (tracks : Tracks file cursor)
    (positive : 0 < file.count)
    {index : Int}
    (nonneg : 0 ≤ index)
    (unread : InRange (file.filePos - (file.count - index)))
    {pos : Nat}
    (place : pos = clamp cursor.data.length (file.filePos - (file.count - index))) :
    Tracks { file with index } { cursor with pos } where
  data := tracks.data
  size := tracks.size
  bufLength := tracks.bufLength
  position := place
  system := tracks.system
  inRange := tracks.inRange
  index_nonneg := nonneg
  unread := unread
  count_nonneg := tracks.count_nonneg
  eof := by
    intro atEof
    have := (tracks.eof atEof).1
    omega
  empty := by
    intro none
    dsimp only at none
    omega
  held := tracks.held
  contents := tracks.contents

/-- The end of `seek` leaves the file at the place that `file_pos` tells. -/
theorem seekOutside
    (tracks : Tracks file cursor)
    {filePos offset : Int} {origin : Origin} {pos : Nat}
    (inRange : InRange filePos)
    (system : (file.filePointer.seek offset origin).pos = pos)
    (place : pos = clamp cursor.data.length filePos) :
    Tracks ({ file with filePos }.seekOutside offset origin) { cursor with pos } where
  data := by
    cases origin <;> exact tracks.data
  size := tracks.size
  bufLength := tracks.bufLength
  position := by
    simpa [BufferedFile.seekOutside, lastUnreadFilePos] using place
  system := system.trans place
  inRange := inRange
  index_nonneg := Int.le_refl 0
  unread := by
    simpa [BufferedFile.seekOutside, lastUnreadFilePos] using inRange
  count_nonneg := Int.le_refl 0
  eof := by
    intro atEof
    simp only [BufferedFile.seekOutside] at atEof
    split at atEof
    · cases atEof
    · rename_i behind
      refine ⟨rfl, ?_⟩
      have := clamp_cast cursor.data.length filePos
      rw [tracks.size] at behind
      change pos = cursor.data.length
      omega
  empty := by
    intro _
    rfl
  held := by
    intro positive
    cases positive
  contents := rfl

end Tracks

/-! ## Seeking -/

section Seek

variable {file : BufferedFile} {cursor : Cursor}

theorem seek_set_tracks
    (tracks : Tracks file cursor)
    {offset : Int}
    (inRange : InRange offset) :
    Tracks (file.seek offset .set) (cursor.seek offset .set) := by
  have bounds := inRange
  unfold InRange at bounds
  simp only [seek, Cursor.seek, Cursor.origin, Int.natCast_zero, Int.zero_add]
  split
  · rename_i inside
    have held := tracks.held inside.1
    have unread : file.filePos - (file.count - (file.count - (file.filePos - offset))) =
        offset := by
      omega
    exact tracks.withIndex inside.1 (by omega) (by rw [unread]; exact inRange) (by rw [unread])
  · refine tracks.seekOutside inRange ?_ rfl
    simp [OsFile.seek, OsFile.moveTo, tracks.data]

theorem seek_cur_tracks
    (tracks : Tracks file cursor)
    {offset : Int32}
    (supports : file.Supports (.seek offset .cur)) :
    Tracks (file.seek offset.toInt .cur) (cursor.seek offset.toInt .cur) := by
  have lower := offset.le_toInt
  have nonneg := tracks.index_nonneg
  simp only [seek, Cursor.seek, Cursor.origin]
  split
  · rename_i positive
    have held := tracks.held positive
    simp only [Supports, if_pos positive] at supports
    obtain ⟨inRange, inside⟩ := supports
    have bounds := inRange
    have unread := tracks.unread
    unfold InRange lastUnreadFilePos at bounds unread
    have sameTarget : clamp cursor.data.length (cursor.pos + offset.toInt) =
        clamp cursor.data.length (file.lastUnreadFilePos + offset.toInt) := by
      rw [tracks.position]
      unfold lastUnreadFilePos
      exact clamp_add (by omega) (inside.imp (by omega) id)
    have indexEq : signed (offset.toInt + file.index) = offset.toInt + file.index := by
      apply signed_of_inRange
      unfold InRange
      omega
    rw [sameTarget, indexEq]
    split
    · rename_i within
      have place : file.filePos - (file.count - (offset.toInt + file.index)) =
          file.lastUnreadFilePos + offset.toInt := by
        unfold lastUnreadFilePos
        omega
      exact tracks.withIndex positive within.1 (by rw [place]; exact inRange) (by rw [place])
    · have filePosEq : signed (file.filePos + signed (offset.toInt - (file.count - file.index))) =
          file.lastUnreadFilePos + offset.toInt := by
        rw [signed_add_signed, show file.filePos + (offset.toInt - (file.count - file.index)) =
          file.lastUnreadFilePos + offset.toInt by unfold lastUnreadFilePos; omega,
          signed_of_inRange inRange]
      rw [filePosEq]
      refine tracks.seekOutside inRange ?_ rfl
      simp only [OsFile.seek, OsFile.moveTo, tracks.data, tracks.system_of_held positive, filePosEq]
  · rename_i empty
    have none : file.count = 0 := by
      have := tracks.count_nonneg
      omega
    simp only [Supports, if_neg empty] at supports
    obtain ⟨inRange, stays⟩ := supports
    rw [tracks.position_eq, tracks.data] at stays
    rw [tracks.position_eq] at inRange
    rw [stays]
    refine tracks.seekOutside tracks.inRange ?_ ?_
    · simp only [OsFile.seek, OsFile.moveTo, tracks.data, tracks.system_of_empty none,
        signed_of_inRange inRange, stays]
    · rw [← tracks.system, tracks.system_of_empty none]

theorem seek_fromEnd_tracks
    (tracks : Tracks file cursor)
    {offset : Int}
    (inRange : InRange (file.fileSize + offset)) :
    Tracks (file.seek offset .fromEnd) (cursor.seek offset .fromEnd) := by
  simp only [seek, Cursor.seek, Cursor.origin, ← tracks.size]
  split
  · rename_i whole
    obtain ⟨positive, all, nonneg⟩ := whole
    have held := tracks.held positive
    have size := tracks.size
    have targetEq : signed (file.count + offset) = file.fileSize + offset := by
      rw [all, signed_of_inRange inRange]
    have place : file.filePos - (file.count - (file.fileSize + offset)) =
        file.fileSize + offset := by
      omega
    rw [targetEq] at nonneg ⊢
    exact tracks.withIndex positive nonneg (by rw [place]; exact inRange) (by rw [place])
  · rw [signed_of_inRange inRange]
    refine tracks.seekOutside inRange ?_ rfl
    simp only [OsFile.seek, OsFile.moveTo, tracks.data]
    rw [← tracks.size, signed_of_inRange inRange]

end Seek

/-! ## Runs -/

/-- A call that the buffer supports is answered as the cursor answers it. -/
theorem respond_tracks
    {file : BufferedFile} {cursor : Cursor}
    (tracks : Tracks file cursor)
    (small : cursor.data.length < 2147483648)
    {call : Call}
    (supports : file.Supports call) :
    (file.respond call).1 = (cursor.respond call).1 ∧
      Tracks (file.respond call).2 (cursor.respond call).2 := by
  cases call with
  | getBytes num isBuffered =>
      have read : ∃ last, file.getBytes num isBuffered = .ok ((cursor.read num).1, last) ∧
          Tracks last (cursor.read num).2 := by
        cases isBuffered with
        | true => exact tracks.getBytes_buffered small supports
        | false => exact tracks.getBytes_unbuffered supports
      obtain ⟨last, ran, tracked⟩ := read
      simp only [respond, Cursor.respond, ran]
      exact ⟨trivial, tracked⟩
  | seek offset origin =>
      refine ⟨rfl, ?_⟩
      cases origin with
      | set => exact seek_set_tracks tracks ⟨offset.le_toInt, offset.toInt_lt⟩
      | cur => exact seek_cur_tracks tracks supports
      | fromEnd => exact seek_fromEnd_tracks tracks supports

end BufferedFile

/-- What a run of calls on a buffered file returns. -/
def bufferedRun (data : List UInt8) (bufferSize : Nat) (calls : List Call) :
    List (Call × Answer) :=
  Transducer.historyOf BufferedFile.respond (.opened data bufferSize) calls

/-- What it returns without a buffer. -/
def plainRun (data : List UInt8) (calls : List Call) : List (Call × Answer) :=
  Transducer.historyOf Cursor.respond ⟨data, 0⟩ calls

def bufferedPosition (data : List UInt8) (bufferSize : Nat) (calls : List Call) : Nat :=
  (Transducer.stateAfter BufferedFile.respond (.opened data bufferSize) calls).position

def plainPosition (data : List UInt8) (calls : List Call) : Nat :=
  (Transducer.stateAfter Cursor.respond ⟨data, 0⟩ calls).pos

/-- In a run whose calls the buffer supports, bytes and positions are those of a cursor. -/
theorem buffered_follows_cursor
    {data : List UInt8}
    (small : data.length < 2147483648)
    (bufferSize : Nat)
    {calls : List Call}
    (supported : Transducer.StepsMeet BufferedFile.respond (.opened data bufferSize)
      BufferedFile.Supports calls) :
    bufferedRun data bufferSize calls = plainRun data calls ∧
      bufferedPosition data bufferSize calls = plainPosition data calls := by
  have simulated : bufferedRun data bufferSize calls = plainRun data calls ∧ _ :=
    Transducer.simulation (fun file cursor => BufferedFile.Tracks file cursor ∧ cursor.data = data)
      ⟨BufferedFile.opened_tracks data bufferSize, rfl⟩
      (fun file cursor call related supports => by
        obtain ⟨tracks, sameData⟩ := related
        obtain ⟨sameAnswer, tracks'⟩ :=
          BufferedFile.respond_tracks tracks (by rw [sameData]; exact small) supports
        refine ⟨sameAnswer, tracks', ?_⟩
        cases call <;> exact sameData)
      supported
  exact ⟨simulated.1, simulated.2.1.position_eq⟩

/-- Reading through a small buffer, back and forth. -/
theorem readings_follow_cursor :
    bufferedRun [10, 11, 12, 13, 14] 2
        [.getBytes 3 true, .seek (-1) .cur, .getBytes 2 true, .seek (-4) .fromEnd] =
      plainRun [10, 11, 12, 13, 14]
        [.getBytes 3 true, .seek (-1) .cur, .getBytes 2 true, .seek (-4) .fromEnd] ∧
    bufferedPosition [10, 11, 12, 13, 14] 2
        [.getBytes 3 true, .seek (-1) .cur, .getBytes 2 true, .seek (-4) .fromEnd] =
      plainPosition [10, 11, 12, 13, 14]
        [.getBytes 3 true, .seek (-1) .cur, .getBytes 2 true, .seek (-4) .fromEnd] :=
  buffered_follows_cursor (by decide) 2 (by decide)

/-- `SEEK_CUR` without anything in the buffer is forgotten by the next read. -/
theorem seek_cur_lost :
    bufferedRun [10, 11, 12] 2 [.seek 1 .cur, .getBytes 1 true] ≠
      plainRun [10, 11, 12] [.seek 1 .cur, .getBytes 1 true] := by
  decide

end PicoJvm.Files
