import PicoJvm.Files.PathRouting
import PicoJvm.Files.StreamCalls
import PicoJvm.Lib.Fallible

/-!
# Listing a directory

The natives pack the names of a directory into one buffer, with a zero between two names, and
`File.list` splits what they packed.
-/

namespace PicoJvm.Files

open PicoJvm.Lib.Fallible

/-! ## Packing -/

/-- The size of `buf` in `file_list`. -/
def listBufSize : Nat := 1024

/-- The loop over the entries of a directory. The position is the length of what is packed. -/
def packNames (stops skips : CString → Bool) :
    (packed : List UInt8) → (first : Bool) → List CString → List UInt8
  | packed, _, [] => packed
  | packed, first, name :: names =>
      if stops name then
        packed
      else if skips name then
        packNames stops skips packed first names
      else
        let need := (if first then 0 else 1) + name.length
        if packed.length + need ≥ listBufSize then
          packed
        else
          packNames stops skips ((if first then packed else packed ++ [0]) ++ name) false names

/-- The names `.` and `..`. -/
def isDots (name : CString) : Bool :=
  name = [46] || name = [46, 46]

/-- The loop of `file_list` over LittleFS. -/
def lfsList (names : List CString) : List UInt8 :=
  packNames (fun _ => false) isDots [] true names

/-- `sd_list`, of a directory that opens. An empty name ends it. -/
def sdList (names : List CString) : List UInt8 :=
  packNames (fun name => name = []) (fun _ => false) [] true names

/-- The characters of bytes, as the natives make them. -/
def javaString (bytes : CString) : JavaString :=
  bytes.map UInt8.toUInt16

/-- `file_list`, from the names that the file system of the directory gives, if it opens it. -/
def nativeList (onSd : Bool) (opened : Option (List CString)) : Option JavaString :=
  opened.map fun names => javaString (if onSd then sdList names else lfsList names)

/-! ## Splitting -/

/-- `result[idx] = name`. -/
def putName (result : List (Option JavaString)) (idx : Nat) (name : JavaString) :
    Except JavaException (List (Option JavaString)) :=
  if idx < result.length then .ok (result.set idx (some name)) else .error .indexOutOfBounds

/-- The second loop of `list`, from `i` on, and the last name. -/
def splitNames (raw : JavaString) :
    (left i start idx : Nat) → List (Option JavaString) →
      Except JavaException (List (Option JavaString))
  | 0, _, start, idx, result => putName result idx (raw.drop start)
  | left + 1, i, start, idx, result =>
      if raw.getD i 0 = 0 then do
        let result ← putName result idx ((raw.drop start).take (i - start))
        splitNames raw left (i + 1) (i + 1) (idx + 1) result
      else
        splitNames raw left (i + 1) start idx result

/-- `File.list`, from what the native returns. -/
def File.list (raw : Option JavaString) :
    Except JavaException (Option (List (Option JavaString))) :=
  match raw with
  | none => .ok none
  | some raw =>
      if raw.length = 0 then
        .ok (some [])
      else do
        let count := raw.foldl (fun count char => if char = 0 then count + 1 else count) 1
        let result ← splitNames raw raw.length 0 0 0 (List.replicate count none)
        .ok (some result)

/-! ## Directories -/

/-- The entries of a directory, in the order of the file system. -/
structure Directory where
  names : List CString
  plain : ∀ name ∈ names, name ≠ [] ∧ 0 ∉ name

/-- The entries to be listed. -/
def Directory.shown (directory : Directory) : List CString :=
  directory.names.filter (fun name => !isDots name)

/-- A directory of FatFs, which hides `.` and `..` itself. -/
structure FatFsDirectory extends Directory where
  hidden : ∀ name ∈ names, isDots name = false

/-- Names with a zero between two of them. -/
def joined (names : List CString) : List UInt8 :=
  [0].intercalate names

/-- Names that leave a byte of the buffer when they are packed. -/
def Packable (names : List CString) : Prop :=
  (joined names).length < listBufSize

instance (names : List CString) : Decidable (Packable names) :=
  inferInstanceAs (Decidable (_ < _))

/-! ## What is packed -/

theorem joined_snoc (names : List CString) (name : CString) :
    joined (names ++ [name]) =
      (if names = [] then joined names else joined names ++ [0]) ++ name := by
  induction names with
  | nil =>
      simp [joined]
  | cons first names inductionHypothesis =>
      rw [if_neg (List.cons_ne_nil _ _), List.cons_append, joined,
        List.intercalate_cons_of_ne_nil (by simp), ← joined, inductionHypothesis]
      by_cases isLast : names = []
      · subst isLast
        simp [joined]
      · rw [if_neg isLast, joined, joined, List.intercalate_cons_of_ne_nil isLast]
        simp

theorem joined_length_le (names more : List CString) :
    (joined names).length ≤ (joined (names ++ more)).length := by
  induction more generalizing names with
  | nil =>
      rw [List.append_nil]
  | cons name more inductionHypothesis =>
      have next := inductionHypothesis (names ++ [name])
      rw [List.append_assoc, List.singleton_append] at next
      apply le_trans _ next
      rw [joined_snoc]
      split
      · simp
      · simp only [List.length_append]
        omega

theorem packNames_cons
    (stops skips : CString → Bool)
    (packed : List UInt8) (first : Bool) (name : CString) (names : List CString) :
    packNames stops skips packed first (name :: names) =
      if stops name then
        packed
      else if skips name then
        packNames stops skips packed first names
      else if packed.length + ((if first then 0 else 1) + name.length) ≥ listBufSize then
        packed
      else
        packNames stops skips ((if first then packed else packed ++ [0]) ++ name) false names :=
  rfl

/-- Names are packed one by one, as long as they leave a byte. -/
theorem packNames_spec
    (before names : List CString)
    (packable : Packable before) :
    ∃ taken, packNames (fun _ => false) (fun _ => false) (joined before) (before = []) names =
        joined (before ++ taken) ∧ taken <+: names ∧
      (taken = names ↔ Packable (before ++ names)) := by
  induction names generalizing before with
  | nil =>
      exact ⟨[], by rw [List.append_nil]; rfl, List.prefix_refl _, by simpa using packable⟩
  | cons name names inductionHypothesis =>
      have size : (joined (before ++ [name])).length =
          (joined before).length + ((if before = [] then 0 else 1) + name.length) := by
        rw [joined_snoc]
        split <;> simp only [List.length_append, List.length_singleton] <;> omega
      have whole : before ++ name :: names = (before ++ [name]) ++ names := by simp
      rw [packNames_cons, if_neg Bool.false_ne_true, if_neg Bool.false_ne_true]
      simp only [decide_eq_true_eq]
      by_cases full : (joined before).length + ((if before = [] then 0 else 1) + name.length) ≥
          listBufSize
      · rw [if_pos full]
        refine ⟨[], by rw [List.append_nil], List.nil_prefix, ?_⟩
        constructor
        · intro nothing
          cases nothing
        · intro fits
          have longer := joined_length_le (before ++ [name]) names
          rw [whole, Packable] at fits
          omega
      · rw [if_neg full, ← joined_snoc]
        have fits : Packable (before ++ [name]) := by
          rw [Packable, size]
          omega
        obtain ⟨taken, packed, isPrefix, all⟩ := inductionHypothesis (before ++ [name]) fits
        have notFirst : decide (before ++ [name] = []) = false := by simp
        rw [notFirst] at packed
        refine ⟨name :: taken, ?_, List.cons_prefix_cons.mpr ⟨rfl, isPrefix⟩, ?_⟩
        · rw [packed]
          simp
        · rw [whole, ← all, List.cons.injEq]
          exact and_iff_right rfl

theorem packNames_skips
    (skips : CString → Bool)
    (packed : List UInt8) (first : Bool) (names : List CString) :
    packNames (fun _ => false) skips packed first names =
      packNames (fun _ => false) (fun _ => false) packed first
        (names.filter (fun name => !skips name)) := by
  induction names generalizing packed first with
  | nil =>
      rfl
  | cons name names inductionHypothesis =>
      rw [packNames_cons, if_neg Bool.false_ne_true]
      by_cases skipped : skips name = true
      · rw [if_pos skipped, inductionHypothesis, List.filter_cons_of_neg (by simp [skipped])]
      · rw [if_neg skipped, List.filter_cons_of_pos (by simp [skipped]), packNames_cons,
          if_neg Bool.false_ne_true, if_neg Bool.false_ne_true]
        simp only [inductionHypothesis]

theorem packNames_goes_on
    {stops : CString → Bool} {names : List CString}
    (goesOn : ∀ name ∈ names, stops name = false)
    (skips : CString → Bool)
    (packed : List UInt8) (first : Bool) :
    packNames stops skips packed first names =
      packNames (fun _ => false) skips packed first names := by
  induction names generalizing packed first with
  | nil =>
      rfl
  | cons name names inductionHypothesis =>
      have rest := inductionHypothesis fun other member =>
        goesOn other (List.mem_cons_of_mem _ member)
      rw [packNames_cons, packNames_cons, goesOn name List.mem_cons_self]
      simp only [rest]

/-! ## What is split -/

theorem putName_append
    (done rest : List (Option JavaString)) (name : JavaString) :
    putName (done ++ none :: rest) done.length name = .ok ((done ++ [some name]) ++ rest) := by
  have inside : done.length < (done ++ none :: rest).length := by
    simp only [List.length_append, List.length_cons]
    omega
  rw [putName, if_pos inside, List.set_append_right _ _ (Nat.le_refl _), Nat.sub_self,
    List.set_cons_zero, List.append_assoc, List.singleton_append]

/-- There is room for every name that is left, the first of which has begun. -/
theorem splitNames_eq
    (before begun left : JavaString)
    (done : List (Option JavaString)) :
    splitNames (before ++ (begun.reverse ++ left)) left.length (before.length + begun.length)
        before.length done.length (done ++ List.replicate (left.count 0 + 1) none) =
      .ok (done ++ (List.splitOnPPrepend (· == 0) left begun).map some) := by
  induction left generalizing before begun done with
  | nil =>
      rw [List.length_nil, splitNames, List.drop_left, List.count_nil, List.replicate_succ,
        putName_append]
      simp
  | cons char left inductionHypothesis =>
      have here : (before ++ (begun.reverse ++ char :: left)).getD
          (before.length + begun.length) 0 = char := by
        rw [List.getD_eq_getElem?_getD, ← List.append_assoc, List.getElem?_append_right
          (by simp)]
        simp
      rw [List.length_cons, splitNames, here]
      by_cases isNul : char = 0
      · subst isNul
        have piece : ((before ++ (begun.reverse ++ 0 :: left)).drop before.length).take
            (before.length + begun.length - before.length) = begun.reverse := by
          rw [List.drop_left, Nat.add_sub_cancel_left, ← List.length_reverse, List.take_left]
        have next := inductionHypothesis (before ++ (begun.reverse ++ [0])) []
          (done ++ [some begun.reverse])
        simp only [List.length_append, List.length_reverse, List.length_singleton,
          List.length_nil, List.reverse_nil, List.nil_append, Nat.add_zero, List.append_assoc,
          List.singleton_append] at next
        rw [if_pos rfl, piece, List.count_cons_self, List.replicate_succ, putName_append, ok_bind,
          List.splitOnPPrepend_cons_pos (by decide), List.map_cons,
          ← List.splitOnPPrepend_nil_right, ← next, List.append_assoc, List.singleton_append]
        rfl
      · have next := inductionHypothesis before (char :: begun) done
        rw [List.reverse_cons, List.append_assoc, List.singleton_append, List.length_cons] at next
        rw [if_neg isNul, List.count_cons_of_ne isNul,
          List.splitOnPPrepend_cons_neg (by simpa using isNul), ← next]
        rfl

theorem count_eq (raw : JavaString) (start : Nat) :
    raw.foldl (fun count char => if char = 0 then count + 1 else count) start =
      raw.count 0 + start := by
  induction raw generalizing start with
  | nil =>
      simp
  | cons char raw inductionHypothesis =>
      rw [List.foldl_cons, inductionHypothesis]
      by_cases isNul : char = 0
      · subst isNul
        rw [if_pos rfl, List.count_cons_self]
        omega
      · rw [if_neg isNul, List.count_cons_of_ne isNul]

theorem list_eq
    {raw : JavaString}
    (someChars : raw ≠ []) :
    File.list (some raw) = .ok (some ((raw.splitOn 0).map some)) := by
  have notEmpty : ¬ raw.length = 0 := fun empty => someChars (List.length_eq_zero_iff.mp empty)
  have split := splitNames_eq [] [] raw []
  simp only [List.length_nil, List.reverse_nil, List.nil_append, Nat.add_zero,
    List.splitOnPPrepend_nil_right] at split
  rw [File.list, if_neg notEmpty, count_eq]
  dsimp only
  rw [split, ok_bind, List.splitOn_eq_splitOnP]

theorem javaString_joined (names : List CString) :
    javaString (joined names) = [0].intercalate (names.map javaString) := by
  induction names with
  | nil =>
      rfl
  | cons name names inductionHypothesis =>
      by_cases isLast : names = []
      · subst isLast
        simp [joined]
      · rw [joined, List.intercalate_cons_of_ne_nil isLast, List.map_cons,
          List.intercalate_cons_of_ne_nil (by simpa using isLast), ← inductionHypothesis]
        simp [javaString, joined]

/-- What is packed name by name is split into the same names. -/
theorem list_joined
    {names : List CString}
    (plain : ∀ name ∈ names, name ≠ [] ∧ 0 ∉ name) :
    File.list (some (javaString (joined names))) =
      .ok (some (names.map fun name => some (javaString name))) := by
  cases names with
  | nil =>
      rfl
  | cons name names =>
      have someChars : javaString (joined (name :: names)) ≠ [] := by
        obtain ⟨first, rest, rfl⟩ := List.exists_cons_of_ne_nil (plain name List.mem_cons_self).1
        cases names <;> simp [joined, javaString]
      have noNul : ∀ text ∈ (name :: names).map javaString, 0 ∉ text := by
        intro text member hasNul
        obtain ⟨other, isName, rfl⟩ := List.mem_map.mp member
        obtain ⟨byte, isByte, isNul⟩ := List.mem_map.mp hasNul
        apply (plain other isName).2
        have zero : byte = 0 := by
          apply UInt8.toNat_inj.mp
          have value := congrArg UInt16.toNat isNul
          rw [UInt8.toNat_toUInt16] at value
          exact value
        rw [← zero]
        exact isByte
      rw [list_eq someChars, javaString_joined, List.splitOn_intercalate 0 noNul (by simp),
        List.map_map]
      rfl

/-! ## Both back ends -/

/-- The listing of a directory is a whole number of names from the first on: all of them if and
only if they leave a byte of the buffer. -/
def ListsShown (raw : Option JavaString) (shown : List CString) : Prop :=
  ∃ names, File.list raw = .ok (some (names.map fun name => some (javaString name))) ∧
    names <+: shown ∧ (names = shown ↔ Packable shown)

theorem listsShown_of_packed
    {packed : List UInt8} {names : List CString}
    (plain : ∀ name ∈ names, name ≠ [] ∧ 0 ∉ name)
    (isPacked : packed = packNames (fun _ => false) (fun _ => false) [] true names) :
    ListsShown (some (javaString packed)) names := by
  obtain ⟨taken, packs, isPrefix, all⟩ := packNames_spec [] names (by decide)
  refine ⟨taken, ?_, isPrefix, all⟩
  rw [isPacked]
  have start : packNames (fun _ => false) (fun _ => false) [] true names = joined taken := packs
  rw [start]
  exact list_joined fun name member => plain name (isPrefix.subset member)

theorem Directory.lfsList_shown
    (directory : Directory) :
    ListsShown (nativeList false (some directory.names)) directory.shown := by
  apply listsShown_of_packed
  · intro name member
    exact directory.plain name (List.mem_filter.mp member).1
  · exact packNames_skips isDots [] true directory.names

theorem FatFsDirectory.sdList_shown
    (directory : FatFsDirectory) :
    ListsShown (nativeList true (some directory.names)) directory.shown := by
  have allShown : directory.shown = directory.names := by
    apply List.filter_eq_self.mpr
    intro name member
    simp [directory.hidden name member]
  rw [allShown]
  apply listsShown_of_packed directory.plain
  apply packNames_goes_on
  intro name member
  simpa using (directory.plain name member).1

/-- On both back ends `File.list` gives the names other than `.` and `..` in order, all of them
when they leave a byte of the buffer, and otherwise whole names from the first on. -/
theorem list_shown
    (lfsDirectory : Directory) (sdDirectory : FatFsDirectory) :
    ListsShown (nativeList false (some lfsDirectory.names)) lfsDirectory.shown ∧
      ListsShown (nativeList true (some sdDirectory.names)) sdDirectory.shown :=
  ⟨lfsDirectory.lfsList_shown, sdDirectory.sdList_shown⟩

/-- Five names that fill the buffer. -/
def fiveNames : Directory where
  names := [97, 98, 99, 100, 101].map (List.replicate 204)
  plain := by
    intro name member
    obtain ⟨byte, isByte, rfl⟩ := List.mem_map.mp member
    refine ⟨by simp, ?_⟩
    intro hasNul
    rw [(List.mem_replicate.mp hasNul).2.symm] at isByte
    exact absurd isByte (by decide)

/-- Names that fit into the buffer without a byte to spare are not all listed. -/
theorem full_buffer_not_listed :
    ¬ ∀ directory : Directory, (joined directory.shown).length ≤ listBufSize →
      File.list (nativeList false (some directory.names)) =
        .ok (some (directory.shown.map fun name => some (javaString name))) := by
  intro always
  have length : (joined fiveNames.shown).length = listBufSize := by decide +kernel
  have listed := always fiveNames length.le
  obtain ⟨names, isListed, isPrefix, all⟩ := fiveNames.lfsList_shown
  rw [listed, Except.ok.injEq, Option.some.injEq] at isListed
  have count := congrArg List.length isListed
  rw [List.length_map, List.length_map] at count
  have fits := all.mp (isPrefix.eq_of_length count.symm)
  rw [Packable, length] at fits
  exact absurd fits (Nat.lt_irrefl _)

end PicoJvm.Files
