import PicoJvm.Lib.Ring

/-!
# Lists in pieces of one size

A list of `count * scale` items seen as `count` pieces of `scale` items. Items copied from one such
list over another at multiples of `scale` are pieces copied.
-/

namespace PicoJvm.Lib.Chunks

open PicoJvm.Lib.Ring

universe u

variable {item : Type u} {scale : Nat}

/-- The first `count` pieces. -/
def chunks (scale : Nat) : Nat → List item → List (List item)
  | 0, _ => []
  | count + 1, items => items.take scale :: chunks scale count (items.drop scale)

theorem chunks_succ (scale count : Nat) (items : List item) :
    chunks scale (count + 1) items = items.take scale :: chunks scale count (items.drop scale) :=
  rfl

@[simp] theorem chunks_length
    (count : Nat)
    (items : List item) :
    (chunks scale count items).length = count := by
  induction count generalizing items with
  | zero =>
      rfl
  | succ count inductionHypothesis =>
      rw [chunks_succ, List.length_cons, inductionHypothesis]

theorem length_of_mem_chunks
    {count : Nat}
    {items piece : List item}
    (whole : items.length = count * scale)
    (member : piece ∈ chunks scale count items) :
    piece.length = scale := by
  induction count generalizing items with
  | zero =>
      cases member
  | succ count inductionHypothesis =>
      rw [Nat.succ_mul] at whole
      rw [chunks_succ, List.mem_cons] at member
      obtain isFirst | isLater := member
      · rw [isFirst, List.length_take]
        omega
      · apply inductionHypothesis _ isLater
        rw [List.length_drop]
        omega

theorem flatten_chunks
    {count : Nat}
    {items : List item}
    (whole : items.length = count * scale) :
    (chunks scale count items).flatten = items := by
  induction count generalizing items with
  | zero =>
      rw [Nat.zero_mul] at whole
      rw [List.eq_nil_of_length_eq_zero whole]
      rfl
  | succ count inductionHypothesis =>
      rw [Nat.succ_mul] at whole
      rw [chunks_succ, List.flatten_cons, inductionHypothesis (by rw [List.length_drop]; omega),
        List.take_append_drop]

section Pieces

variable {pieces : List (List item)}

theorem length_flatten
    (sized : ∀ piece ∈ pieces, piece.length = scale) :
    pieces.flatten.length = pieces.length * scale := by
  induction pieces with
  | nil =>
      simp
  | cons piece pieces inductionHypothesis =>
      obtain ⟨isFirst, areLater⟩ := List.forall_mem_cons.mp sized
      rw [List.flatten_cons, List.length_append, inductionHypothesis areLater, isFirst,
        List.length_cons, Nat.succ_mul, Nat.add_comm]

theorem flatten_take
    (sized : ∀ piece ∈ pieces, piece.length = scale)
    (count : Nat) :
    pieces.flatten.take (count * scale) = (pieces.take count).flatten := by
  induction pieces generalizing count with
  | nil =>
      simp
  | cons piece pieces inductionHypothesis =>
      obtain ⟨isFirst, areLater⟩ := List.forall_mem_cons.mp sized
      cases count with
      | zero =>
          simp
      | succ count =>
          rw [Nat.succ_mul, Nat.add_comm, List.flatten_cons, List.take_succ_cons, List.flatten_cons,
            ← inductionHypothesis areLater, ← isFirst, List.take_length_add_append]

theorem flatten_drop
    (sized : ∀ piece ∈ pieces, piece.length = scale)
    (count : Nat) :
    pieces.flatten.drop (count * scale) = (pieces.drop count).flatten := by
  induction pieces generalizing count with
  | nil =>
      simp
  | cons piece pieces inductionHypothesis =>
      obtain ⟨isFirst, areLater⟩ := List.forall_mem_cons.mp sized
      cases count with
      | zero =>
          simp
      | succ count =>
          rw [Nat.succ_mul, Nat.add_comm, List.flatten_cons, List.drop_succ_cons,
            ← inductionHypothesis areLater, ← isFirst, List.drop_length_add_append]

theorem chunks_flatten
    (sized : ∀ piece ∈ pieces, piece.length = scale) :
    chunks scale pieces.length pieces.flatten = pieces := by
  induction pieces with
  | nil =>
      rfl
  | cons piece pieces inductionHypothesis =>
      obtain ⟨isFirst, areLater⟩ := List.forall_mem_cons.mp sized
      rw [List.length_cons, chunks, List.flatten_cons, ← isFirst, List.take_left, List.drop_left,
        isFirst, inductionHypothesis areLater]

/-- Pieces written over others. -/
theorem overwrite_flatten
    {moved : List (List item)}
    (sized : ∀ piece ∈ pieces, piece.length = scale)
    (movedSized : ∀ piece ∈ moved, piece.length = scale)
    (start : Nat) :
    overwrite pieces.flatten (start * scale) moved.flatten =
      (overwrite pieces start moved).flatten := by
  rw [overwrite, overwrite, flatten_take sized, length_flatten movedSized, ← Nat.add_mul,
    flatten_drop sized, List.flatten_append, List.flatten_append]

end Pieces

/-- Items copied between lists of pieces are pieces copied. -/
theorem chunks_overwrite
    {source target : List item}
    {sourceCount targetCount : Nat}
    (sourceWhole : source.length = sourceCount * scale)
    (targetWhole : target.length = targetCount * scale)
    {first start count : Nat}
    (sourceFits : first + count ≤ sourceCount)
    (targetFits : start + count ≤ targetCount) :
    chunks scale targetCount
        (overwrite target (start * scale) ((source.drop (first * scale)).take (count * scale))) =
      overwrite (chunks scale targetCount target) start
        (((chunks scale sourceCount source).drop first).take count) := by
  have sourceSized : ∀ piece ∈ chunks scale sourceCount source, piece.length = scale :=
    fun piece member => length_of_mem_chunks sourceWhole member
  have targetSized : ∀ piece ∈ chunks scale targetCount target, piece.length = scale :=
    fun piece member => length_of_mem_chunks targetWhole member
  have droppedSized : ∀ piece ∈ (chunks scale sourceCount source).drop first,
      piece.length = scale :=
    fun piece member => sourceSized piece (List.mem_of_mem_drop member)
  have movedSized : ∀ piece ∈ ((chunks scale sourceCount source).drop first).take count,
      piece.length = scale :=
    fun piece member => droppedSized piece (List.mem_of_mem_take member)
  have movedLength : (((chunks scale sourceCount source).drop first).take count).length = count := by
    rw [List.length_take, List.length_drop, chunks_length]
    omega
  have moved : (source.drop (first * scale)).take (count * scale) =
      (((chunks scale sourceCount source).drop first).take count).flatten := by
    rw [← flatten_take droppedSized, ← flatten_drop sourceSized, flatten_chunks sourceWhole]
  have written := overwrite_flatten targetSized movedSized start
  rw [flatten_chunks targetWhole] at written
  have writtenLength : (overwrite (chunks scale targetCount target) start
      (((chunks scale sourceCount source).drop first).take count)).length = targetCount := by
    rw [overwrite_length (by rw [movedLength, chunks_length]; exact targetFits), chunks_length]
  have writtenSized : ∀ piece ∈ overwrite (chunks scale targetCount target) start
      (((chunks scale sourceCount source).drop first).take count), piece.length = scale := by
    intro piece member
    rw [overwrite, List.mem_append, List.mem_append] at member
    obtain (before | inside) | after := member
    · exact targetSized piece (List.mem_of_mem_take before)
    · exact movedSized piece inside
    · exact targetSized piece (List.mem_of_mem_drop after)
  have split := chunks_flatten writtenSized
  rw [writtenLength] at split
  rw [moved, written, split]

end PicoJvm.Lib.Chunks
