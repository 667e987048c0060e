import PicoJvm.Files.BufferedReads

/-!
# Buffered files whose handle is moved

A decoder of an entry reads through the handle of the buffered file and leaves it anywhere. The
buffered file does not rely on the place of its handle: a refill moves the handle first.
-/

namespace PicoJvm.Files

open PicoJvm.Lib.Machine

namespace BufferedFile

/-- The handle is moved behind the back of the buffer. -/
def withPointer (file : BufferedFile) (place : Int) : BufferedFile :=
  { file with filePointer := file.filePointer.moveTo place }

theorem withPointer_withPointer
    (file : BufferedFile)
    (place place' : Int) :
    (file.withPointer place).withPointer place' = file.withPointer place' :=
  rfl

theorem withPointer_pos (file : BufferedFile) :
    file.withPointer file.filePointer.pos = file := by
  have same : file.filePointer.moveTo file.filePointer.pos = file.filePointer := by
    simp only [OsFile.moveTo, clamp_of_le file.filePointer.pos_le]
  rw [withPointer, same]

theorem refillBuffer_withPointer
    (file : BufferedFile)
    (place : Int) :
    ∃ place', (file.withPointer place).refillBuffer = file.refillBuffer.withPointer place' := by
  cases atEof : file.atEof with
  | true =>
      refine ⟨place, ?_⟩
      simp [refillBuffer, withPointer, atEof]
  | false =>
      have same : (file.withPointer place).refillBuffer = file.refillBuffer := by
        simp [refillBuffer, withPointer, atEof, OsFile.seek, OsFile.moveTo]
      rw [same]
      exact ⟨_, file.refillBuffer.withPointer_pos.symm⟩

theorem index_withPointer
    (file : BufferedFile)
    (place index : Int) :
    { file.withPointer place with index } = { file with index }.withPointer place :=
  rfl

theorem readBuffered_withPointer
    (rounds : Nat)
    {num : Int} {file last : BufferedFile} {bytes : List UInt8}
    (ran : readBuffered rounds num file = .ok (bytes, last))
    (place : Int) :
    ∃ place', readBuffered rounds num (file.withPointer place) =
      .ok (bytes, last.withPointer place') := by
  induction rounds generalizing num file bytes place with
  | zero =>
      cases ran
  | succ rounds inductionHypothesis =>
      have sameEof : (file.withPointer place).atEof = file.atEof := rfl
      have sameCount : (file.withPointer place).count = file.count := rfl
      have sameIndex : (file.withPointer place).index = file.index := rfl
      have sameBuffer : (file.withPointer place).dataBuffer = file.dataBuffer := rfl
      simp only [readBuffered, index_withPointer] at ran ⊢
      rw [sameEof, sameCount, sameIndex, sameBuffer]
      by_cases goesOn : file.atEof = false ∧ num > 0
      · rw [if_pos goesOn] at ran ⊢
        generalize (if num > file.count - file.index then file.count - file.index
          else num) = numToRead at ran ⊢
        by_cases negative : numToRead < 0
        · rw [if_pos negative] at ran
          cases ran
        · rw [if_neg negative] at ran ⊢
          generalize { file with index := file.index + numToRead } = copied at ran ⊢
          have ready : ∃ place',
              (if num - numToRead > 0 then (copied.withPointer place).refillBuffer
                else copied.withPointer place) =
                (if num - numToRead > 0 then copied.refillBuffer else copied).withPointer
                  place' := by
            split
            · exact refillBuffer_withPointer copied place
            · exact ⟨place, rfl⟩
          obtain ⟨place', same⟩ := ready
          rw [same]
          cases rest : readBuffered rounds (num - numToRead)
              (if num - numToRead > 0 then copied.refillBuffer else copied) with
          | error fault =>
              rw [rest] at ran
              cases ran
          | ok result =>
              rw [rest] at ran
              cases ran
              obtain ⟨place'', ran'⟩ := inductionHypothesis rest place'
              rw [ran']
              exact ⟨place'', rfl⟩
      · rw [if_neg goesOn] at ran ⊢
        cases ran
        exact ⟨place, rfl⟩

/-- The loop keeps the index inside. -/
theorem readBuffered_index
    (rounds : Nat)
    {num : Int} {file last : BufferedFile} {bytes : List UInt8}
    (inside : file.index ≤ file.count)
    (ran : readBuffered rounds num file = .ok (bytes, last)) :
    last.index ≤ last.count := by
  induction rounds generalizing num file bytes with
  | zero =>
      cases ran
  | succ rounds inductionHypothesis =>
      unfold readBuffered at ran
      split at ran
      · rename_i goesOn
        generalize countEq : (if num > file.count - file.index then file.count - file.index
          else num) = numToRead at ran
        have copied : file.index + numToRead ≤ file.count := by
          split at countEq <;> omega
        dsimp only at ran
        split at ran
        · cases ran
        · split at ran
          · cases ran
          · rename_i rest
            cases ran
            refine inductionHypothesis ?_ rest
            split
            · exact (refillBuffer_filled { file with index := file.index + numToRead } goesOn.1).1
            · exact copied
      · cases ran
        exact inside

/-! ## Files that are read -/

/-- The file reads these bytes wherever its handle is. -/
structure Held (data : List UInt8) (file : BufferedFile) : Prop where
  room : 0 < file.bufferSize
  tracks : ∃ place cursor, Tracks (file.withPointer place) cursor ∧ cursor.data = data

/-- And it stands at a place, with the index inside the buffer. -/
structure HeldAt (data : List UInt8) (file : BufferedFile) (pos : Nat) : Prop where
  room : 0 < file.bufferSize
  tracks : ∃ place, Tracks (file.withPointer place) ⟨data, pos⟩
  inside : file.index ≤ file.count

theorem HeldAt.held
    {data : List UInt8} {file : BufferedFile} {pos : Nat}
    (heldAt : HeldAt data file pos) :
    Held data file := by
  obtain ⟨place, tracks⟩ := heldAt.tracks
  exact ⟨heldAt.room, place, _, tracks, rfl⟩

theorem Reads.held
    {data : List UInt8} {file : BufferedFile}
    (reads : Reads data file) :
    Held data file := by
  obtain ⟨room, cursor, tracks, sameData⟩ := reads
  rw [← file.withPointer_pos] at tracks
  exact ⟨room, _, cursor, tracks, sameData⟩

theorem Held.withPointer
    {data : List UInt8} {file : BufferedFile}
    (held : Held data file)
    (place : Int) :
    Held data (file.withPointer place) := by
  obtain ⟨place', cursor, tracks, sameData⟩ := held.tracks
  exact ⟨held.room, place', cursor, tracks, sameData⟩

section Moves

variable {data : List UInt8} {file : BufferedFile}

/-- Leaving the buffer, whatever becomes of the handle. -/
theorem Held.seekOutside
    (held : Held data file)
    {filePos : Int}
    (inRange : InRange filePos)
    (offset : Int)
    (origin : Origin) :
    HeldAt data ({ file with filePos }.seekOutside offset origin) (clamp data.length filePos) := by
  obtain ⟨place, cursor, tracks, rfl⟩ := held.tracks
  have outside : Tracks
      ({ file.withPointer place with filePos }.seekOutside filePos .set)
      { cursor with pos := clamp cursor.data.length filePos } := by
    apply tracks.seekOutside inRange _ rfl
    simp only [OsFile.seek, OsFile.moveTo, tracks.data]
  have same : ({ file with filePos }.seekOutside offset origin).withPointer filePos =
      { file.withPointer place with filePos }.seekOutside filePos .set := by
    cases origin <;> rfl
  rw [← same] at outside
  exact ⟨held.room, ⟨filePos, outside⟩, Int.le_refl 0⟩

theorem Held.withIndex
    (held : Held data file)
    (positive : 0 < file.count)
    {index : Int}
    (nonneg : 0 ≤ index)
    (inside : index ≤ file.count) :
    HeldAt data { file with index }
      (clamp data.length (file.filePos - (file.count - index))) := by
  obtain ⟨place, cursor, tracks, rfl⟩ := held.tracks
  have bounds := tracks.inRange
  have kept := tracks.held positive
  have unread : InRange (file.filePos - (file.count - index)) := by
    unfold InRange at bounds ⊢
    simp only [BufferedFile.withPointer] at bounds kept
    omega
  exact ⟨held.room, ⟨place, tracks.withIndex positive nonneg unread rfl⟩, inside⟩

/-- A seek to a place of the file. -/
theorem Held.seek_set
    (held : Held data file)
    {offset : Int}
    (inRange : InRange offset) :
    HeldAt data (file.seek offset .set) (clamp data.length offset) := by
  simp only [BufferedFile.seek]
  split
  · rename_i within
    have nonneg : 0 ≤ file.count - (file.filePos - offset) := by omega
    have indexed := held.withIndex within.1 nonneg (by omega)
    have place : file.filePos - (file.count - (file.count - (file.filePos - offset))) =
        offset := by
      omega
    rw [place] at indexed
    exact indexed
  · exact held.seekOutside inRange offset .set

/-- A seek forwards, which may lose its way but not the file. -/
theorem Held.seek_cur
    (held : Held data file)
    (offset : Int) :
    Held data (file.seek offset .cur) := by
  have same : { file with filePos := file.filePos } = file := rfl
  obtain ⟨place, cursor, tracks, rfl⟩ := held.tracks
  simp only [BufferedFile.seek]
  split
  · rename_i positive
    split
    · rename_i within
      exact (held.withIndex positive within.1 (Int.le_of_lt within.2)).held
    · exact (held.seekOutside (inRange_signed _) _ _).held
  · rw [← same]
    exact (held.seekOutside tracks.inRange _ _).held

/-- A buffered read from a place that is not before the file. -/
theorem HeldAt.getBytes
    {pos : Nat}
    (heldAt : HeldAt data file pos)
    (small : data.length < 2147483648)
    (notBefore : 0 ≤ file.filePos ∨ 0 < pos)
    (num : Nat) :
    ∃ last, file.getBytes num true = .ok ((data.drop pos).take num, last) ∧
      HeldAt data last (pos + ((data.drop pos).take num).length) := by
  obtain ⟨place, tracks⟩ := heldAt.tracks
  have inside := heldAt.inside
  have filePos : 0 ≤ file.filePos := by
    rcases notBefore with nonneg | positive
    · exact nonneg
    · have position : pos = clamp data.length (file.filePos - (file.count - file.index)) :=
        tracks.position
      have bounds := clamp_cast data.length (file.filePos - (file.count - file.index))
      omega
  have supports : (file.withPointer place).Supports (.getBytes num true) := by
    intro _ _
    exact ⟨inside, fun _ => ⟨heldAt.room, filePos⟩⟩
  obtain ⟨last, ran, tracked⟩ := tracks.getBytes_buffered small supports
  have back : (file.withPointer place).withPointer file.filePointer.pos = file :=
    file.withPointer_pos
  obtain ⟨bytes, last', returned, sameSize⟩ := getBytes_returns inside num
  obtain ⟨place', ran'⟩ := readBuffered_withPointer _ ran file.filePointer.pos
  rw [back] at ran'
  have ranHere : file.getBytes num true =
      .ok ((data.drop pos).take num, last.withPointer place') := ran'
  rw [ranHere] at returned
  cases returned
  refine ⟨_, ranHere, ?_, ⟨last.filePointer.pos, ?_⟩, readBuffered_index _ inside ran'⟩
  · rw [sameSize]
    exact heldAt.room
  · rw [withPointer_withPointer, last.withPointer_pos]
    exact tracked

/-- Bytes from a place on. -/
theorem Held.at_set
    (held : Held data file)
    (small : data.length < 2147483648)
    {place : Nat}
    (fits : place < 2147483648)
    (num : Nat) :
    ∃ last, (file.seek place .set).getBytes num true = .ok ((data.drop place).take num, last) ∧
      HeldAt data last (min place data.length + ((data.drop place).take num).length) := by
  have inRange : InRange place := by
    unfold InRange
    omega
  have sought := held.seek_set inRange
  have filePos := (file.seek_set_index place).2.1 (Int.natCast_nonneg _)
  obtain ⟨last, ran, heldAt⟩ := sought.getBytes small (.inl filePos) num
  have pos : clamp data.length (place : Int) = min place data.length := by
    have := clamp_cast data.length (place : Int)
    omega
  have sameBytes : (data.drop (min place data.length)).take num = (data.drop place).take num := by
    rcases Nat.le_total place data.length with inside | outside
    · rw [Nat.min_eq_left inside]
    · rw [Nat.min_eq_right outside, List.drop_of_length_le (Nat.le_refl _),
        List.drop_of_length_le outside]
  rw [pos, sameBytes] at ran heldAt
  exact ⟨last, ran, heldAt⟩

end Moves

end BufferedFile

end PicoJvm.Files
