import PicoJvm.Files.NamedFiles

/-!
# Pathnames and their parents

A `java.io.File` has a pathname that is normalised. The parent of a file is what its pathname has
in front of the last slash, normalised again.
-/

namespace PicoJvm.Files

/-! ## Normalised pathnames -/

/-- What `removeSlashes` takes away are slashes, and one is left only where it is alone. -/
theorem removeSlashes_spec (reversed : JavaString) :
    (∃ count, reversed = List.replicate count 47 ++ removeSlashes reversed) ∧
      ∀ next rest, removeSlashes reversed ≠ 47 :: next :: rest := by
  induction reversed with
  | nil =>
      refine ⟨⟨0, rfl⟩, ?_⟩
      intro next rest same
      cases same
  | cons last reversed inductionHypothesis =>
      cases reversed with
      | nil =>
          refine ⟨⟨0, rfl⟩, ?_⟩
          intro next rest same
          cases same
      | cons next reversed =>
          obtain ⟨⟨count, slashes⟩, ends⟩ := inductionHypothesis
          by_cases slash : last = 47
          · rw [removeSlashes, if_pos slash]
            refine ⟨⟨count + 1, ?_⟩, ends⟩
            rw [List.replicate_succ, List.cons_append, ← slashes, slash]
          · rw [removeSlashes, if_neg slash]
            refine ⟨⟨0, rfl⟩, ?_⟩
            intro next' rest same
            exact slash (List.cons.inj same).1

/-- Without backslashes, only slashes at the end are lost. -/
theorem eq_normalize_append
    {pathname : JavaString}
    (noBackslash : 92 ∉ pathname) :
    ∃ count, pathname = normalize pathname ++ List.replicate count 47 := by
  have kept : pathname.map (fun char => if char = 92 then 47 else char) = pathname := by
    conv_rhs => rw [← List.map_id pathname]
    apply List.map_congr_left
    intro char member
    rw [if_neg, id_eq]
    intro backslash
    rw [backslash] at member
    exact noBackslash member
  obtain ⟨count, slashes⟩ := (removeSlashes_spec pathname.reverse).1
  refine ⟨count, ?_⟩
  have reversed := congrArg List.reverse slashes
  rw [List.reverse_reverse, List.reverse_append, List.reverse_replicate] at reversed
  rw [normalize, kept]
  exact reversed

theorem normalize_noBackslash (pathname : JavaString) : 92 ∉ normalize pathname := by
  intro member
  obtain ⟨count, slashes⟩ := (removeSlashes_spec
    (pathname.map fun char => if char = 92 then 47 else char).reverse).1
  have inside : 92 ∈ pathname.map fun char : UInt16 => if char = 92 then 47 else char := by
    apply List.mem_reverse.mp
    rw [slashes]
    exact List.mem_append_right _ (List.mem_reverse.mp member)
  obtain ⟨char, _, same⟩ := List.mem_map.mp inside
  split at same
  · cases same
  · contradiction

/-- Only the root ends with a slash. -/
theorem normalize_ends
    (pathname : JavaString)
    {front : JavaString}
    (ends : normalize pathname = front ++ [47]) :
    front = [] := by
  have reversed := congrArg List.reverse ends
  rw [normalize, List.reverse_reverse, List.reverse_append, List.reverse_singleton,
    List.singleton_append] at reversed
  cases back : front.reverse with
  | nil =>
      exact List.reverse_eq_nil_iff.mp back
  | cons next rest =>
      rw [back] at reversed
      exact absurd reversed ((removeSlashes_spec _).2 next rest)

theorem normalize_normalize (pathname : JavaString) :
    normalize (normalize pathname) = normalize pathname := by
  obtain ⟨count, same⟩ := eq_normalize_append (normalize_noBackslash pathname)
  cases count with
  | zero =>
      rw [List.replicate_zero, List.append_nil] at same
      exact same.symm
  | succ count =>
      rw [List.replicate_succ', ← List.append_assoc] at same
      have root := normalize_ends pathname same
      have nothing := (List.append_eq_nil_iff.mp root).1
      rw [root] at same
      rw [same, List.nil_append] at nothing
      cases nothing

/-! ## Files -/

/-- A `java.io.File`. -/
structure File where
  path : JavaString
  normalized : normalize path = path
  deriving DecidableEq

/-- `new File(pathname)`. -/
def File.new (pathname : JavaString) : File :=
  ⟨normalize pathname, normalize_normalize pathname⟩

/-- `lastIndexOf`, which is `-1` when the character does not occur. -/
def lastIndexOf (char : UInt16) (string : JavaString) : Int :=
  string.length - 1 - string.reverse.idxOf char

namespace File

/-- `getParent`. -/
def getParent (file : File) : Option JavaString :=
  let idx := lastIndexOf 47 file.path
  if idx ≤ 0 then none else some (file.path.take idx.toNat)

/-- `getParentFile`. -/
def getParentFile (file : File) : Option File :=
  file.getParent.map new

end File

theorem lastIndexOf_append
    {char : UInt16} {rest : JavaString}
    (notInRest : char ∉ rest)
    (front : JavaString) :
    lastIndexOf char (front ++ char :: rest) = front.length := by
  have place : (front ++ char :: rest).reverse.idxOf char = rest.length := by
    rw [List.reverse_append, List.reverse_cons, List.append_assoc,
      List.idxOf_append_of_notMem (fun member => notInRest (List.mem_reverse.mp member)),
      List.singleton_append, List.idxOf_cons_self, List.length_reverse, Nat.add_zero]
  rw [lastIndexOf, place, List.length_append, List.length_cons]
  omega

theorem lastIndexOf_none
    {char : UInt16} {string : JavaString}
    (notIn : char ∉ string) :
    lastIndexOf char string = -1 := by
  rw [lastIndexOf, List.idxOf_eq_length (fun member => notIn (List.mem_reverse.mp member)),
    List.length_reverse]
  omega

/-- The last slash of a string. -/
theorem exists_lastSlash
    {string : JavaString}
    (member : 47 ∈ string) :
    ∃ front rest : JavaString, string = front ++ 47 :: rest ∧ 47 ∉ rest := by
  obtain ⟨before, after, reversed, notBefore⟩ :=
    List.eq_append_cons_of_mem (List.mem_reverse.mpr member)
  refine ⟨after.reverse, before.reverse, ?_, fun member => notBefore (List.mem_reverse.mp member)⟩
  have back := congrArg List.reverse reversed
  rw [List.reverse_reverse, List.reverse_append, List.reverse_cons, List.append_assoc] at back
  exact back

/-- The parent is what stands in front of the last slash. -/
theorem File.getParent_some
    {file : File} {parent : JavaString}
    (given : file.getParent = some parent) :
    ∃ rest, file.path = parent ++ 47 :: rest ∧ 47 ∉ rest ∧ parent ≠ [] := by
  by_cases slash : (47 : UInt16) ∈ file.path
  · obtain ⟨front, rest, split, notInRest⟩ := exists_lastSlash slash
    have idx : lastIndexOf 47 file.path = front.length := by
      rw [split]
      exact lastIndexOf_append notInRest front
    rw [getParent, idx] at given
    split at given
    · cases given
    · rename_i positive
      have same : file.path.take (front.length : Int).toNat = front := by
        rw [split, Int.toNat_natCast, List.take_left]
      rw [same] at given
      cases given
      refine ⟨rest, split, notInRest, ?_⟩
      intro empty
      rw [empty] at positive
      exact positive (Int.le_refl 0)
  · rw [getParent, lastIndexOf_none slash] at given
    cases given

/-- Without a parent, no slash has anything in front of it. -/
theorem File.getParent_none
    {file : File}
    (given : file.getParent = none) :
    47 ∉ file.path ∨ ∃ rest, file.path = 47 :: rest ∧ 47 ∉ rest := by
  by_cases slash : (47 : UInt16) ∈ file.path
  · right
    obtain ⟨front, rest, split, notInRest⟩ := exists_lastSlash slash
    have idx : lastIndexOf 47 file.path = front.length := by
      rw [split]
      exact lastIndexOf_append notInRest front
    rw [getParent, idx] at given
    split at given
    · rename_i atMost
      have empty : front = [] := by
        apply List.length_eq_zero_iff.mp
        omega
      rw [empty] at split
      exact ⟨rest, split, notInRest⟩
    · cases given
  · exact .inl slash

/-! ## Names on the way -/

/-- The names of a path, the innermost one first. Slashes that follow each other count once. -/
def parts (path : CString) : List CString :=
  ((path.splitOn 47).filter (· ≠ [])).reverse

theorem parts_append (front rest : CString) :
    parts (front ++ 47 :: rest) = parts rest ++ parts front := by
  rw [parts, List.splitOn_append_cons_self, List.filter_append, List.reverse_append, parts, parts]

theorem parts_nil : parts [] = [] :=
  rfl

theorem parts_name
    {part : CString}
    (isName : 47 ∉ part)
    (notEmpty : part ≠ []) :
    parts part = [part] := by
  rw [parts, List.splitOn_eq_singleton isName, List.filter_singleton, decide_eq_true notEmpty]
  rfl

theorem parts_slashes (path : CString) (count : Nat) :
    parts (path ++ List.replicate count 47) = parts path := by
  induction count with
  | zero =>
      rw [List.replicate_zero, List.append_nil]
  | succ count inductionHypothesis =>
      rw [List.replicate_succ', ← List.append_assoc, parts_append, parts_nil, List.nil_append,
        inductionHypothesis]

theorem parts_cons
    {first : UInt8} (path : CString)
    (isName : first ≠ 47) :
    parts (first :: path) ≠ [] := by
  intro none
  obtain ⟨head, rest, split⟩ := List.exists_cons_of_ne_nil (List.splitOn_ne_nil 47 path)
  have notSlash : (first == 47) = false := beq_eq_false_iff_ne.mpr isName
  rw [parts, List.splitOn_cons_eq_if_modifyHead, notSlash, if_neg Bool.false_ne_true, split,
    List.modifyHead_cons, List.filter_cons_of_pos (by simp), List.reverse_cons] at none
  exact List.append_ne_nil_of_right_ne_nil _ (List.cons_ne_nil _ _) none

/-- A path without any part is made of slashes. -/
theorem eq_slashes_of_parts
    {path : CString}
    (none : parts path = []) :
    path = List.replicate path.length 47 := by
  induction path with
  | nil =>
      rfl
  | cons first path inductionHypothesis =>
      by_cases slash : first = 47
      · have rest : parts path = [] := by
          rw [slash] at none
          have whole := (parts_append [] path).symm.trans none
          exact (List.append_eq_nil_iff.mp whole).1
        rw [List.length_cons, List.replicate_succ, slash, ← inductionHypothesis rest]
      · exact absurd none (parts_cons path slash)

/-- No part of the path is `.` or `..`. -/
def Plain (path : CString) : Prop :=
  ∀ part ∈ parts path, part ≠ [46] ∧ part ≠ [46, 46]

instance (path : CString) : Decidable (Plain path) :=
  inferInstanceAs (Decidable (∀ part ∈ _, _))

theorem spelledPath_append (front rest : JavaString) :
    spelledPath (front ++ 47 :: rest) = spelledPath front ++ 47 :: spelledPath rest := by
  rw [spelledPath, List.map_append, List.map_cons]
  rfl

theorem spelledPath_slash
    {string : JavaString}
    (bytes : ∀ char ∈ string, char ≠ 0 ∧ char < 256)
    (noSlash : 47 ∉ string) :
    47 ∉ spelledPath string := by
  intro member
  obtain ⟨char, isIn, same⟩ := List.mem_map.mp member
  have small : char.toNat < 256 := (bytes char isIn).2
  have value := congrArg UInt8.toNat same
  rw [UInt16.toNat_toUInt8, Nat.mod_eq_of_lt small] at value
  have slash : char = 47 := UInt16.toNat_inj.mp value
  rw [slash] at isIn
  exact noSlash isIn

/-- A parent has all parts but the last one, and spells a path where the file does. -/
structure ParentOf (parent file : File) (last : CString) : Prop where
  convertible : Convertible parent.path
  names : parts (spelledPath file.path) = last :: parts (spelledPath parent.path)
  isPrefix : spelledPath parent.path <+: spelledPath file.path
  shorter : parent.path.length < file.path.length

theorem File.getParentFile_some
    {file parent : File}
    (convertible : Convertible file.path)
    (given : file.getParentFile = some parent) :
    ∃ last, ParentOf parent file last := by
  obtain ⟨front, isParent, isNew⟩ := Option.map_eq_some_iff.mp given
  obtain ⟨rest, split, notInRest, notEmpty⟩ := getParent_some isParent
  have noBackslash : 92 ∉ front := by
    intro member
    apply normalize_noBackslash file.path
    rw [file.normalized, split]
    exact List.mem_append_left _ member
  obtain ⟨count, slashes⟩ := eq_normalize_append noBackslash
  have samePath : parent.path = normalize front := by
    rw [← isNew]
    rfl
  rw [← samePath] at slashes
  have whole : file.path = parent.path ++ (List.replicate count 47 ++ 47 :: rest) := by
    rw [split, slashes, List.append_assoc]
  have someName : rest ≠ [] := by
    intro none
    rw [none] at split
    apply notEmpty
    exact normalize_ends file.path (file.normalized.trans split)
  have restBytes : ∀ char ∈ rest, char ≠ 0 ∧ char < 256 := by
    intro char member
    apply convertible.bytes
    rw [split]
    exact List.mem_append_right _ (List.mem_cons_of_mem _ member)
  have lastName : parts (spelledPath rest) = [spelledPath rest] := by
    apply parts_name (spelledPath_slash restBytes notInRest)
    intro none
    exact someName (List.map_eq_nil_iff.mp none)
  refine ⟨spelledPath rest, ⟨?_, ?_⟩, ?_, ?_, ?_⟩
  · have fits := convertible.fits
    rw [whole, List.length_append] at fits
    omega
  · intro char member
    apply convertible.bytes
    rw [whole]
    exact List.mem_append_left _ member
  · have front' : spelledPath front = spelledPath parent.path ++ List.replicate count 47 := by
      conv_lhs => rw [slashes]
      rw [spelledPath, List.map_append, List.map_replicate]
      rfl
    rw [split, spelledPath_append, parts_append, lastName, front', parts_slashes]
    rfl
  · rw [whole, spelledPath, spelledPath, List.map_append]
    exact List.prefix_append _ _
  · rw [whole, List.length_append, List.length_append, List.length_cons]
    omega

/-- A file without a parent has at most one part. -/
theorem File.getParentFile_none
    {file : File}
    (convertible : Convertible file.path)
    (given : file.getParentFile = none) :
    (parts (spelledPath file.path)).length ≤ 1 := by
  have atMost : ∀ part : CString, 47 ∉ part → (parts part).length ≤ 1 := by
    intro part isName
    by_cases empty : part = []
    · rw [empty]
      decide
    · rw [parts_name isName empty]
      exact Nat.le_refl 1
  rcases getParent_none (Option.map_eq_none_iff.mp given) with noSlash | ⟨rest, split, noSlash⟩
  · exact atMost _ (spelledPath_slash convertible.bytes noSlash)
  · have bytes : ∀ char ∈ rest, char ≠ 0 ∧ char < 256 := by
      intro char member
      apply convertible.bytes
      rw [split]
      exact List.mem_cons_of_mem _ member
    have onlyRest : parts (spelledPath file.path) = parts (spelledPath rest) := by
      rw [split]
      exact (parts_append [] (spelledPath rest)).trans (List.append_nil _)
    rw [onlyRest]
    exact atMost _ (spelledPath_slash bytes noSlash)

/-! ## Names on the SD card -/

/-- The part `sd`. -/
def sdPart : CString := [115, 100]

theorem isSdPath_split
    {path : CString}
    (isSd : isSdPath path = true) :
    path = [47, 115, 100] ++ 47 :: path.drop 4 := by
  rw [isSdPath, decide_eq_true_eq] at isSd
  conv_lhs => rw [← List.take_append_drop 4 path, isSd]
  rfl

/-- Behind the part `sd` are those on the card. -/
theorem parts_sd
    {path : CString}
    (isSd : isSdPath path = true) :
    parts path = parts (sdRelPath path) ++ [sdPart] ∧
      parts (sdRelPath path) = parts (path.drop 4) := by
  have split := isSdPath_split isSd
  generalize path.drop 4 = rest at split
  have relative : sdRelPath path = 47 :: rest := by
    rw [split]
    rfl
  have partsRest : parts (47 :: rest) = parts rest :=
    (parts_append [] rest).trans (List.append_nil _)
  refine ⟨?_, ?_⟩
  · rw [relative, partsRest, split, parts_append]
    rfl
  · rw [relative, partsRest]

/-- A file on the card is not its root. -/
theorem File.parts_sd_ne_nil
    {file : File}
    (convertible : Convertible file.path)
    (isSd : isSdPath (spelledPath file.path) = true) :
    parts (sdRelPath (spelledPath file.path)) ≠ [] := by
  intro none
  rw [(parts_sd isSd).2] at none
  have split := isSdPath_split isSd
  rw [eq_slashes_of_parts none, ← List.replicate_succ, List.replicate_succ', ← List.append_assoc]
    at split
  obtain ⟨front, last, whole, frontSame, lastSame⟩ := List.map_eq_append_iff.mp split
  obtain ⟨char, rfl, isSlash⟩ := List.map_eq_singleton_iff.mp lastSame
  have small : char.toNat < 256 := by
    apply (convertible.bytes char _).2
    rw [whole]
    exact List.mem_append_right _ List.mem_cons_self
  have value := congrArg UInt8.toNat isSlash
  rw [UInt16.toNat_toUInt8, Nat.mod_eq_of_lt small] at value
  have slash : char = 47 := UInt16.toNat_inj.mp value
  rw [slash] at whole
  have empty := normalize_ends file.path (file.normalized.trans whole)
  rw [empty] at frontSame
  cases frontSame

/-- The parent of a file on the card is on the card, or it is `/sd` itself. -/
theorem ParentOf.onCard
    {parent file : File} {last : CString}
    (parentOf : ParentOf parent file last)
    (convertible : Convertible file.path)
    (isSd : isSdPath (spelledPath file.path) = true) :
    (isSdPath (spelledPath parent.path) = true ∧ parts (sdRelPath (spelledPath file.path)) =
        last :: parts (sdRelPath (spelledPath parent.path))) ∨
      (isSdPath (spelledPath parent.path) = false ∧
        parts (sdRelPath (spelledPath file.path)) = [last] ∧
          parts (spelledPath parent.path) = [sdPart]) := by
  have whole := (parts_sd isSd).1
  rw [parentOf.names] at whole
  cases relative : parts (sdRelPath (spelledPath file.path)) with
  | nil =>
      exact absurd relative (file.parts_sd_ne_nil convertible isSd)
  | cons first more =>
      rw [relative, List.cons_append] at whole
      obtain ⟨rfl, above⟩ := List.cons.inj whole
      cases parentSd : isSdPath (spelledPath parent.path) with
      | true =>
          left
          refine ⟨rfl, ?_⟩
          rw [(parts_sd parentSd).1] at above
          rw [List.append_cancel_right above]
      | false =>
          right
          obtain ⟨rest, split⟩ := parentOf.isPrefix
          have few : (spelledPath parent.path).length < 4 := by
            by_contra long
            rw [isSdPath, decide_eq_true_eq, ← split,
              List.take_append_of_le_length (Nat.le_of_not_lt long)] at isSd
            rw [isSdPath, isSd] at parentSd
            exact absurd parentSd (by decide)
          have start : spelledPath parent.path =
              [47, 115, 100].take (spelledPath parent.path).length := by
            have taken := congrArg (List.take (spelledPath parent.path).length) split
            have atMost : (spelledPath parent.path).length ≤ ([47, 115, 100] : CString).length :=
              Nat.le_of_lt_succ few
            rw [List.take_left, isSdPath_split isSd, List.take_append_of_le_length atMost] at taken
            exact taken
          have atMost : ∀ count < 4, (parts ([47, 115, 100].take count)).length ≤ 1 := by
            decide
          have length := atMost _ few
          rw [← start, above, List.length_append, List.length_singleton] at length
          have noMore : more = [] := List.length_eq_zero_iff.mp (by omega)
          rw [noMore] at above ⊢
          exact ⟨rfl, rfl, above⟩

end PicoJvm.Files
