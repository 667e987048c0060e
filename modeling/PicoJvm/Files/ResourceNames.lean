import Mathlib.Data.List.Basic
import PicoJvm.Files.PathRouting

/-!
# Names of resources

`ResourceInputStream` brings the name of a resource into the form in which the jar file lists it.
-/

namespace PicoJvm.ResourceNames

open PicoJvm.Files

/-! ## Fixing a name -/

/-- `String.indexOf(int, int)`. -/
def indexOf (name : JavaString) (ch : UInt16) (fromIndex : Nat) : Option Nat :=
  ((name.drop fromIndex).findIdx? fun c => decide (c = ch)).map (fromIndex + ·)

/-- `String.substring(int, int)`. -/
def substring (name : JavaString) (beginIndex endIndex : Nat) : JavaString :=
  (name.take endIndex).drop beginIndex

/-- `"."`. -/
def currentDir : JavaString := [46]

/-- `".."`. -/
def parentDir : JavaString := [46, 46]

/-- `".class"`. -/
def classSuffix : JavaString := [46, 99, 108, 97, 115, 115]

/-- `dirVector.removeElementAt(dirVector.size()-1)`, which throws for an empty vector. -/
def removeLast (dirVector : List JavaString) : Option (List JavaString) :=
  if dirVector = [] then none else some dirVector.dropLast

/-- What the loop does with a directory that is not empty. -/
def enterDirectory (dirVector : List JavaString) (curDir : JavaString) :
    Option (List JavaString) :=
  if curDir = currentDir then some dirVector
  else if curDir = parentDir then removeLast dirVector
  else some (dirVector ++ [curDir])

theorem indexOf_bounds
    {name : JavaString} {ch : UInt16} {fromIndex endIdx : Nat}
    (found : indexOf name ch fromIndex = some endIdx) :
    fromIndex ≤ endIdx ∧ endIdx < name.length := by
  obtain ⟨offset, isOffset, rfl⟩ := Option.map_eq_some_iff.mp found
  have below := (List.findIdx?_eq_some_iff_getElem.mp isOffset).1
  rw [List.length_drop] at below
  omega

/-- The loop of `fixResourceName`, with where it leaves `startIdx`. There is no result when an
exception is thrown. -/
def collectDirectories (name : JavaString) (startIdx : Nat) (dirVector : List JavaString) :
    Option (List JavaString × Nat) :=
  match _found : indexOf name 47 startIdx with
  | none => some (dirVector, startIdx)
  | some endIdx =>
      if endIdx = startIdx then
        collectDirectories name (startIdx + 1) dirVector
      else
        match enterDirectory dirVector (substring name startIdx endIdx) with
        | none => none
        | some dirVector => collectDirectories name (endIdx + 1) dirVector
termination_by name.length - startIdx
decreasing_by
  all_goals
    have bounds := indexOf_bounds _found
    omega

/-- The directories, each with a slash behind it. -/
def dirName (dirVector : List JavaString) : JavaString :=
  dirVector.flatMap (· ++ [47])

/-- `fixResourceName`. -/
def fixResourceName (name : JavaString) : Option JavaString :=
  match collectDirectories name 0 [] with
  | none => none
  | some (dirVector, startIdx) =>
      if startIdx < name.length then
        let filename := name.drop startIdx
        if classSuffix <:+ filename ∧ classSuffix ≠ filename then none
        else some (dirName dirVector ++ name.drop startIdx)
      else
        some (dirName dirVector)

/-! ## What a name denotes -/

/-- The segments in front of the slashes, and what follows the last slash. -/
def splitSegments : JavaString → List JavaString × JavaString
  | [] => ([], [])
  | c :: rest =>
      if c = 47 then
        ([] :: (splitSegments rest).1, (splitSegments rest).2)
      else
        match (splitSegments rest).1 with
        | [] => ([], c :: (splitSegments rest).2)
        | dir :: dirs => ((c :: dir) :: dirs, (splitSegments rest).2)

def directories (name : JavaString) : List JavaString :=
  (splitSegments name).1

/-- The final segment, which is empty behind a slash. -/
def lastSegment (name : JavaString) : JavaString :=
  (splitSegments name).2

/-- The segments of a name. A slash at the end is the mark of a directory, and no segment of its
own. -/
def segments (name : JavaString) : List JavaString :=
  directories name ++ if lastSegment name = [] then [] else [lastSegment name]

/-- A segment that names an entry of its directory. -/
def IsName (segment : JavaString) : Prop :=
  segment ≠ [] ∧ segment ≠ currentDir ∧ segment ≠ parentDir

/-- Where segments lead to from a directory, both as the names on the way from the root. -/
inductive LeadsTo : List JavaString → List JavaString → List JavaString → Prop
  | here {path : List JavaString} :
      LeadsTo path [] path
  | empty {path rest target : List JavaString}
      (onwards : LeadsTo path rest target) :
      LeadsTo path ([] :: rest) target
  | current {path rest target : List JavaString}
      (onwards : LeadsTo path rest target) :
      LeadsTo path (currentDir :: rest) target
  | parent {path rest target : List JavaString} {name : JavaString}
      (onwards : LeadsTo path rest target) :
      LeadsTo (path ++ [name]) (parentDir :: rest) target
  | child {path rest target : List JavaString} {name : JavaString}
      (isName : IsName name)
      (onwards : LeadsTo (path ++ [name]) rest target) :
      LeadsTo path (name :: rest) target

/-- Segments that ask for the parent of the root. -/
def ClimbsAboveRoot (path : List JavaString) : Prop :=
  ∃ front rest, path = front ++ parentDir :: rest ∧ LeadsTo [] front []

/-- A name that is one of a directory whatever the directory is called. -/
def NamesDirectory (name : JavaString) : Prop :=
  lastSegment name = [] ∨ lastSegment name = currentDir ∨ lastSegment name = parentDir

/-- Names of the same entry. -/
def SameEntry (name name' : JavaString) : Prop :=
  (∀ path, LeadsTo [] (segments name) path ↔ LeadsTo [] (segments name') path) ∧
    (NamesDirectory name ↔ NamesDirectory name')

/-- A name of a class file. -/
def IsClassFile (name : JavaString) : Prop :=
  classSuffix.length < (lastSegment name).length ∧ classSuffix <:+ lastSegment name

/-! ## Splitting -/

theorem slash_cases (name : JavaString) :
    47 ∉ name ∨ ∃ dir rest, name = dir ++ 47 :: rest ∧ 47 ∉ dir := by
  by_cases listed : 47 ∈ name
  · obtain ⟨dir, rest, same, absent⟩ := List.eq_append_cons_of_mem listed
    exact Or.inr ⟨dir, rest, same, absent⟩
  · exact Or.inl listed

theorem splitSegments_of_noSlash {name : JavaString} (noSlash : 47 ∉ name) :
    splitSegments name = ([], name) := by
  induction name with
  | nil =>
      rfl
  | cons c rest inductionHypothesis =>
      obtain ⟨notFirst, notRest⟩ := not_or.mp (mt List.mem_cons.mpr noSlash)
      rw [splitSegments, if_neg (Ne.symm notFirst), inductionHypothesis notRest]

theorem splitSegments_slash {dir : JavaString} (noSlash : 47 ∉ dir) (rest : JavaString) :
    splitSegments (dir ++ 47 :: rest) =
      (dir :: (splitSegments rest).1, (splitSegments rest).2) := by
  induction dir with
  | nil =>
      simp [splitSegments]
  | cons c dir inductionHypothesis =>
      obtain ⟨notFirst, notRest⟩ := not_or.mp (mt List.mem_cons.mpr noSlash)
      rw [List.cons_append, splitSegments, if_neg (Ne.symm notFirst), inductionHypothesis notRest]

/-- Names are split off segment by segment. -/
theorem segment_induction
    {motive : JavaString → Prop}
    (last : ∀ name, 47 ∉ name → motive name)
    (slash : ∀ dir rest, 47 ∉ dir → motive rest → motive (dir ++ 47 :: rest))
    (name : JavaString) :
    motive name := by
  induction length : name.length using Nat.strongRecOn generalizing name with
  | _ bound inductionHypothesis =>
      rcases slash_cases name with noSlash | ⟨dir, rest, rfl, noSlash⟩
      · exact last name noSlash
      · rw [List.length_append, List.length_cons] at length
        exact slash dir rest noSlash (inductionHypothesis rest.length (by omega) rest rfl)

theorem splitSegments_rejoin (name : JavaString) :
    dirName (directories name) ++ lastSegment name = name := by
  induction name using segment_induction with
  | last name noSlash =>
      simp [directories, lastSegment, splitSegments_of_noSlash noSlash, dirName]
  | slash dir rest noSlash inductionHypothesis =>
      simp only [directories, lastSegment] at inductionHypothesis ⊢
      rw [splitSegments_slash noSlash, dirName, List.flatMap_cons, List.append_assoc]
      rw [dirName] at inductionHypothesis
      rw [inductionHypothesis, List.append_assoc, List.singleton_append]

/-- A name put together of segments is split into them. -/
theorem splitSegments_dirName
    {dirVector : List JavaString} {filename : JavaString}
    (noSlashes : ∀ dir ∈ dirVector, 47 ∉ dir)
    (noSlash : 47 ∉ filename) :
    splitSegments (dirName dirVector ++ filename) = (dirVector, filename) := by
  induction dirVector with
  | nil =>
      exact splitSegments_of_noSlash noSlash
  | cons dir dirVector inductionHypothesis =>
      obtain ⟨firstNoSlash, restNoSlashes⟩ := List.forall_mem_cons.mp noSlashes
      rw [show dirName (dir :: dirVector) ++ filename =
        dir ++ 47 :: (dirName dirVector ++ filename) by simp [dirName]]
      rw [splitSegments_slash firstNoSlash, inductionHypothesis restNoSlashes]

theorem noSlash_segments (name : JavaString) :
    (∀ dir ∈ directories name, 47 ∉ dir) ∧ 47 ∉ lastSegment name := by
  induction name using segment_induction with
  | last name noSlash =>
      simp [directories, lastSegment, splitSegments_of_noSlash noSlash, noSlash]
  | slash dir rest noSlash inductionHypothesis =>
      simp only [directories, lastSegment] at inductionHypothesis ⊢
      rw [splitSegments_slash noSlash]
      exact ⟨List.forall_mem_cons.mpr ⟨noSlash, inductionHypothesis.1⟩, inductionHypothesis.2⟩

/-! ## The loop -/

theorem indexOf_of_noSlash
    {rest : JavaString}
    (noSlash : 47 ∉ rest)
    (front : JavaString) :
    indexOf (front ++ rest) 47 front.length = none := by
  rw [indexOf, List.drop_left, Option.map_eq_none_iff, List.findIdx?_eq_none_iff]
  intro c listed
  exact decide_eq_false fun same => noSlash (same ▸ listed)

theorem indexOf_slash
    {dir : JavaString}
    (noSlash : 47 ∉ dir)
    (front rest : JavaString) :
    indexOf (front ++ (dir ++ 47 :: rest)) 47 front.length = some (front.length + dir.length) := by
  have skipped : (dir.findIdx? fun c => decide (c = 47)) = none := by
    rw [List.findIdx?_eq_none_iff]
    intro c listed
    exact decide_eq_false fun same => noSlash (same ▸ listed)
  rw [indexOf, List.drop_left, List.findIdx?_append, skipped, List.findIdx?_cons]
  simp

theorem substring_middle (front dir rest : JavaString) :
    substring (front ++ (dir ++ rest)) front.length (front.length + dir.length) = dir := by
  rw [substring, ← List.append_assoc, ← List.length_append, List.take_left, List.drop_left]

/-- What the loop does with a segment. -/
def enterSegment (dirVector : List JavaString) (segment : JavaString) : Option (List JavaString) :=
  if segment = [] then some dirVector else enterDirectory dirVector segment

theorem collectDirectories_of_none
    {name : JavaString} {startIdx : Nat}
    (missing : indexOf name 47 startIdx = none)
    (dirVector : List JavaString) :
    collectDirectories name startIdx dirVector = some (dirVector, startIdx) := by
  rw [collectDirectories.eq_def]
  split
  · rfl
  · next endIdx found =>
      rw [missing] at found
      cases found

theorem collectDirectories_of_some
    {name : JavaString} {startIdx endIdx : Nat}
    (found : indexOf name 47 startIdx = some endIdx)
    (dirVector : List JavaString) :
    collectDirectories name startIdx dirVector =
      (enterSegment dirVector (substring name startIdx endIdx)).bind
        (collectDirectories name (endIdx + 1)) := by
  obtain ⟨ordered, inside⟩ := indexOf_bounds found
  have isLength : (substring name startIdx endIdx).length = endIdx - startIdx := by
    rw [substring, List.length_drop, List.length_take, Nat.min_eq_left (Nat.le_of_lt inside)]
  rw [collectDirectories.eq_def]
  split
  · next missing =>
      rw [found] at missing
      cases missing
  · next endIdx' found' =>
      rw [found, Option.some.injEq] at found'
      subst found'
      by_cases same : endIdx = startIdx
      · have isEmpty : substring name startIdx endIdx = [] :=
          List.eq_nil_of_length_eq_zero (by omega)
        rw [if_pos same, isEmpty, enterSegment, if_pos rfl, same]
        rfl
      · have notEmpty : substring name startIdx endIdx ≠ [] := by
          intro isEmpty
          rw [isEmpty, List.length_nil] at isLength
          omega
        rw [if_neg same, enterSegment, if_neg notEmpty]
        cases enterDirectory dirVector (substring name startIdx endIdx) <;> rfl

/-- The loop enters the segments in front of the slashes. -/
theorem collectDirectories_eq (front rest : JavaString) (dirVector : List JavaString) :
    collectDirectories (front ++ rest) front.length dirVector =
      ((directories rest).foldlM enterSegment dirVector).map fun dirVector =>
        (dirVector, (front ++ rest).length - (lastSegment rest).length) := by
  induction rest using segment_induction generalizing front dirVector with
  | last rest noSlash =>
      rw [collectDirectories_of_none (indexOf_of_noSlash noSlash front)]
      simp [directories, lastSegment, splitSegments_of_noSlash noSlash]
  | slash dir rest noSlash inductionHypothesis =>
      have onwards := inductionHypothesis (front ++ dir ++ [47])
      simp only [List.append_assoc, List.singleton_append, List.length_append,
        List.length_cons, List.length_nil, Nat.zero_add] at onwards
      rw [collectDirectories_of_some (indexOf_slash noSlash front rest), substring_middle]
      simp only [directories, lastSegment, List.length_append, List.length_cons] at onwards ⊢
      rw [splitSegments_slash noSlash, List.foldlM_cons]
      cases enterSegment dirVector dir with
      | none => rfl
      | some entered =>
          rw [Option.bind_some, Nat.add_assoc, onwards]
          rfl

theorem collectDirectories_zero (name : JavaString) :
    collectDirectories name 0 [] =
      ((directories name).foldlM enterSegment []).map fun dirVector =>
        (dirVector, name.length - (lastSegment name).length) :=
  collectDirectories_eq [] name []

/-- The part behind the last slash is the filename. -/
theorem drop_lastSegment (name : JavaString) :
    name.drop (name.length - (lastSegment name).length) = lastSegment name := by
  have rejoined := splitSegments_rejoin name
  have length := congrArg List.length rejoined
  rw [List.length_append] at length
  calc
    name.drop (name.length - (lastSegment name).length) =
        (dirName (directories name) ++ lastSegment name).drop
          (dirName (directories name)).length := by
      rw [rejoined]
      congr 1
      omega
    _ = lastSegment name := List.drop_left

/-! ## Where the loop leads -/

theorem enterSegment_eq_some_iff {path target : List JavaString} {segment : JavaString} :
    enterSegment path segment = some target ↔
      (segment = [] ∨ segment = currentDir) ∧ target = path ∨
        segment = parentDir ∧ (∃ name, path = target ++ [name]) ∨
        IsName segment ∧ target = path ++ [segment] := by
  by_cases empty : segment = []
  · subst empty
    simpa [enterSegment, IsName, parentDir] using eq_comm
  · by_cases current : segment = currentDir
    · subst current
      simpa [enterSegment, enterDirectory, IsName, currentDir, parentDir] using eq_comm
    · by_cases parent : segment = parentDir
      · subst parent
        simp only [enterSegment, enterDirectory, removeLast, IsName, empty, current, if_false,
          if_true, or_self, false_and, true_and, false_or, not_true_eq_false, and_false, or_false,
          ne_eq]
        constructor
        · intro removed
          split at removed
          · cases removed
          · next notEmpty =>
              cases removed
              exact ⟨path.getLast notEmpty, (List.dropLast_append_getLast notEmpty).symm⟩
        · rintro ⟨name, rfl⟩
          simp
      · simpa [enterSegment, enterDirectory, IsName, empty, current, parent] using eq_comm

theorem enterSegment_eq_none_iff {path : List JavaString} {segment : JavaString} :
    enterSegment path segment = none ↔ segment = parentDir ∧ path = [] := by
  by_cases empty : segment = []
  · simp [empty, enterSegment, parentDir]
  · by_cases current : segment = currentDir
    · simp [current, enterSegment, enterDirectory, currentDir, parentDir]
    · by_cases parent : segment = parentDir
      · subst parent
        simp [enterSegment, enterDirectory, removeLast, empty, current]
      · simp [enterSegment, enterDirectory, empty, current, parent]

theorem leadsTo_cons_iff {path rest target : List JavaString} {segment : JavaString} :
    LeadsTo path (segment :: rest) target ↔
      ∃ entered, enterSegment path segment = some entered ∧ LeadsTo entered rest target := by
  constructor
  · intro leads
    cases leads with
    | empty onwards =>
        exact ⟨path, enterSegment_eq_some_iff.2 (Or.inl ⟨Or.inl rfl, rfl⟩), onwards⟩
    | current onwards =>
        exact ⟨path, enterSegment_eq_some_iff.2 (Or.inl ⟨Or.inr rfl, rfl⟩), onwards⟩
    | parent onwards =>
        exact ⟨_, enterSegment_eq_some_iff.2 (Or.inr (Or.inl ⟨rfl, _, rfl⟩)), onwards⟩
    | child isName onwards =>
        exact ⟨_, enterSegment_eq_some_iff.2 (Or.inr (Or.inr ⟨isName, rfl⟩)), onwards⟩
  · rintro ⟨entered, enters, onwards⟩
    rcases enterSegment_eq_some_iff.1 enters with
      ⟨rfl | rfl, rfl⟩ | ⟨rfl, name, rfl⟩ | ⟨isName, rfl⟩
    · exact .empty onwards
    · exact .current onwards
    · exact .parent onwards
    · exact .child isName onwards

theorem leadsTo_iff {path segs target : List JavaString} :
    LeadsTo path segs target ↔ segs.foldlM enterSegment path = some target := by
  induction segs generalizing path with
  | nil =>
      constructor
      · intro leads
        cases leads
        rfl
      · intro same
        cases same
        exact .here
  | cons segment rest inductionHypothesis =>
      rw [leadsTo_cons_iff, List.foldlM_cons, Option.bind_eq_bind, Option.bind_eq_some_iff]
      simp only [inductionHypothesis]

theorem leadsTo_append_iff {path front rest target : List JavaString} :
    LeadsTo path (front ++ rest) target ↔
      ∃ between, LeadsTo path front between ∧ LeadsTo between rest target := by
  simp only [leadsTo_iff]
  rw [List.foldlM_append, Option.bind_eq_bind, Option.bind_eq_some_iff]

/-- There is no way exactly when the parent of the root is asked for. -/
theorem foldlM_eq_none_iff {path segs : List JavaString} :
    segs.foldlM enterSegment path = none ↔
      ∃ front rest, segs = front ++ parentDir :: rest ∧ LeadsTo path front [] := by
  induction segs generalizing path with
  | nil =>
      simp
  | cons segment rest inductionHypothesis =>
      rw [List.foldlM_cons]
      cases enters : enterSegment path segment with
      | none =>
          obtain ⟨rfl, rfl⟩ := enterSegment_eq_none_iff.1 enters
          exact iff_of_true rfl ⟨[], rest, rfl, .here⟩
      | some entered =>
          rw [Option.bind_eq_bind, Option.bind_some, inductionHypothesis]
          constructor
          · rintro ⟨front, behind, rfl, leads⟩
            exact ⟨segment :: front, behind, rfl, leadsTo_cons_iff.2 ⟨entered, enters, leads⟩⟩
          · rintro ⟨front, behind, split, leads⟩
            cases front with
            | nil =>
                rw [List.nil_append, List.cons.injEq] at split
                cases leads
                rw [split.1] at enters
                simp [enterSegment, enterDirectory, removeLast, parentDir, currentDir] at enters
            | cons first front =>
                rw [List.cons_append, List.cons.injEq] at split
                obtain ⟨rfl, rfl⟩ := split
                obtain ⟨entered', enters', leads'⟩ := leadsTo_cons_iff.1 leads
                rw [enters, Option.some.injEq] at enters'
                subst enters'
                exact ⟨front, behind, rfl, leads'⟩

/-- What is entered are names of the way or of the segments. -/
theorem LeadsTo.names
    {path segs target : List JavaString}
    (leads : LeadsTo path segs target)
    (pathNames : ∀ name ∈ path, IsName name)
    (pathSlashes : ∀ name ∈ path, 47 ∉ name)
    (slashes : ∀ segment ∈ segs, 47 ∉ segment) :
    ∀ name ∈ target, IsName name ∧ 47 ∉ name := by
  induction leads with
  | here =>
      exact fun name listed => ⟨pathNames name listed, pathSlashes name listed⟩
  | empty onwards inductionHypothesis | current onwards inductionHypothesis =>
      exact inductionHypothesis pathNames pathSlashes (List.forall_mem_cons.mp slashes).2
  | parent onwards inductionHypothesis =>
      exact inductionHypothesis
        (fun name listed => pathNames name (List.mem_append_left _ listed))
        (fun name listed => pathSlashes name (List.mem_append_left _ listed))
        (List.forall_mem_cons.mp slashes).2
  | child isName onwards inductionHypothesis =>
      obtain ⟨noSlash, slashes⟩ := List.forall_mem_cons.mp slashes
      refine inductionHypothesis ?_ ?_ slashes
      · simpa [or_imp, forall_and] using ⟨pathNames, isName⟩
      · simpa [or_imp, forall_and] using ⟨pathSlashes, noSlash⟩

theorem leadsTo_names
    {names : List JavaString}
    (areNames : ∀ name ∈ names, IsName name)
    (path : List JavaString) :
    LeadsTo path names (path ++ names) := by
  induction names generalizing path with
  | nil =>
      rw [List.append_nil]
      exact .here
  | cons name names inductionHypothesis =>
      obtain ⟨isName, areNames⟩ := List.forall_mem_cons.mp areNames
      have onwards := inductionHypothesis areNames (path ++ [name])
      rw [List.append_assoc, List.singleton_append] at onwards
      exact .child isName onwards

theorem LeadsTo.unique
    {path segs target target' : List JavaString}
    (leads : LeadsTo path segs target)
    (leads' : LeadsTo path segs target') :
    target = target' := by
  rw [leadsTo_iff] at leads leads'
  rw [leads, Option.some.injEq] at leads'
  exact leads'

/-! ## What is returned -/

theorem classSuffix_iff (filename : JavaString) :
    classSuffix <:+ filename ∧ classSuffix ≠ filename ↔
      classSuffix.length < filename.length ∧ classSuffix <:+ filename := by
  constructor
  · rintro ⟨isSuffix, other⟩
    refine ⟨Nat.lt_of_le_of_ne isSuffix.length_le ?_, isSuffix⟩
    exact fun sameLength => other (isSuffix.eq_of_length sameLength)
  · rintro ⟨longer, isSuffix⟩
    refine ⟨isSuffix, ?_⟩
    rintro rfl
    exact Nat.lt_irrefl _ longer

instance (name : JavaString) : Decidable (IsClassFile name) :=
  inferInstanceAs (Decidable (_ ∧ _))

theorem fixResourceName_eq (name : JavaString) :
    fixResourceName name =
      ((directories name).foldlM enterSegment []).bind fun dirVector =>
        if IsClassFile name then none else some (dirName dirVector ++ lastSegment name) := by
  rw [fixResourceName, collectDirectories_zero]
  cases (directories name).foldlM enterSegment [] with
  | none => rfl
  | some dirVector =>
      have short : (lastSegment name).length ≤ name.length := by
        have length := congrArg List.length (splitSegments_rejoin name)
        rw [List.length_append] at length
        omega
      simp only [Option.map_some, Option.bind_some, drop_lastSegment]
      by_cases empty : lastSegment name = []
      · simp [empty, IsClassFile]
      · have positive := List.length_pos_iff.mpr empty
        rw [if_pos (by omega)]
        simp only [classSuffix_iff]
        exact if_congr Iff.rfl rfl rfl

theorem fixResourceName_eq_some_iff {name fixed : JavaString} :
    fixResourceName name = some fixed ↔
      ∃ dirVector, LeadsTo [] (directories name) dirVector ∧ ¬ IsClassFile name ∧
        fixed = dirName dirVector ++ lastSegment name := by
  rw [fixResourceName_eq, Option.bind_eq_some_iff]
  simp only [leadsTo_iff]
  constructor
  · rintro ⟨dirVector, leads, result⟩
    split at result
    · cases result
    · next other => exact ⟨dirVector, leads, other, (Option.some.inj result).symm⟩
  · rintro ⟨dirVector, leads, other, rfl⟩
    exact ⟨dirVector, leads, if_neg other⟩

theorem fixResourceName_eq_none_iff {name : JavaString} :
    fixResourceName name = none ↔ ClimbsAboveRoot (directories name) ∨ IsClassFile name := by
  rw [ClimbsAboveRoot, ← foldlM_eq_none_iff, fixResourceName_eq]
  cases (directories name).foldlM enterSegment [] <;> simp

/-- The directories of a name that is returned are those that were entered. -/
theorem splitSegments_fixed
    {name : JavaString} {dirVector : List JavaString}
    (leads : LeadsTo [] (directories name) dirVector) :
    directories (dirName dirVector ++ lastSegment name) = dirVector ∧
      lastSegment (dirName dirVector ++ lastSegment name) = lastSegment name ∧
      ∀ dir ∈ dirVector, IsName dir := by
  obtain ⟨noSlashes, noSlash⟩ := noSlash_segments name
  have names := leads.names (by simp) (by simp) noSlashes
  have split := splitSegments_dirName (fun dir listed => (names dir listed).2) noSlash
  simp only [directories, lastSegment] at split ⊢
  rw [split]
  exact ⟨rfl, rfl, fun dir listed => (names dir listed).1⟩

/-- A name that is returned is returned again for itself. -/
theorem fixResourceName_fixed
    {name fixed : JavaString}
    (isFixed : fixResourceName name = some fixed) :
    fixResourceName fixed = some fixed := by
  obtain ⟨dirVector, leads, notClass, rfl⟩ := fixResourceName_eq_some_iff.1 isFixed
  obtain ⟨sameDirectories, sameLast, names⟩ := splitSegments_fixed leads
  rw [IsClassFile] at notClass
  rw [fixResourceName_eq_some_iff, IsClassFile, sameDirectories, sameLast]
  exact ⟨dirVector, leadsTo_names names [], notClass, rfl⟩

theorem fixResourceName_twice (name : JavaString) :
    (fixResourceName name).bind fixResourceName = fixResourceName name := by
  cases isFixed : fixResourceName name with
  | none => rfl
  | some fixed => exact fixResourceName_fixed isFixed

theorem sameEntry_fixed
    {name fixed : JavaString}
    (isFixed : fixResourceName name = some fixed) :
    SameEntry name fixed := by
  obtain ⟨dirVector, leads, notClass, rfl⟩ := fixResourceName_eq_some_iff.1 isFixed
  obtain ⟨sameDirectories, sameLast, names⟩ := splitSegments_fixed leads
  constructor
  · intro path
    rw [segments, segments, sameDirectories, sameLast, leadsTo_append_iff, leadsTo_append_iff]
    have again : LeadsTo [] dirVector dirVector := leadsTo_names names []
    constructor
    · rintro ⟨between, leads', onwards⟩
      rw [leads'.unique leads] at onwards
      exact ⟨dirVector, again, onwards⟩
    · rintro ⟨between, again', onwards⟩
      rw [again'.unique again] at onwards
      exact ⟨dirVector, leads, onwards⟩
  · rw [NamesDirectory, NamesDirectory, sameLast]

/-! ## The form of a resource name -/

/-- What `fixResourceName` is to do with a name. -/
structure IsFixed (name : JavaString) : Prop where
  throws : fixResourceName name = none ↔ ClimbsAboveRoot (segments name) ∨ IsClassFile name
  names : ∀ fixed, fixResourceName name = some fixed → ∀ segment ∈ segments fixed, IsName segment
  sameEntry : ∀ fixed, fixResourceName name = some fixed → SameEntry name fixed
  twice : (fixResourceName name).bind fixResourceName = fixResourceName name

/-- A final segment that is no name of an entry. -/
def EndsInDots (name : JavaString) : Prop :=
  lastSegment name = currentDir ∨ lastSegment name = parentDir

theorem climbsAboveRoot_segments_iff
    {name : JavaString}
    (ordinary : ¬ EndsInDots name) :
    ClimbsAboveRoot (segments name) ↔ ClimbsAboveRoot (directories name) := by
  rw [EndsInDots, not_or] at ordinary
  simp only [ClimbsAboveRoot, ← foldlM_eq_none_iff]
  rw [segments, List.foldlM_append]
  cases (directories name).foldlM enterSegment [] with
  | none => rfl
  | some dirVector =>
      by_cases empty : lastSegment name = []
      · simp [empty]
      · have isName : IsName (lastSegment name) := ⟨empty, ordinary⟩
        have entered : enterSegment dirVector (lastSegment name) ≠ none := by
          intro missing
          exact ordinary.2 (enterSegment_eq_none_iff.1 missing).1
        simp [empty, entered]

theorem climbsAboveRoot_segments
    {name : JavaString}
    (climbs : ClimbsAboveRoot (directories name)) :
    ClimbsAboveRoot (segments name) := by
  obtain ⟨front, rest, split, leads⟩ := climbs
  exact ⟨front, _, by rw [segments, split, List.append_assoc, List.cons_append], leads⟩

theorem IsFixed.of_climbs
    {name : JavaString}
    (climbs : ClimbsAboveRoot (directories name)) :
    IsFixed name := by
  have thrown : fixResourceName name = none := fixResourceName_eq_none_iff.2 (Or.inl climbs)
  exact {
    throws := iff_of_true thrown (Or.inl (climbsAboveRoot_segments climbs))
    names := by simp [thrown]
    sameEntry := fun _ isFixed => sameEntry_fixed isFixed
    twice := fixResourceName_twice name }

theorem IsFixed.of_ordinary
    {name : JavaString}
    (ordinary : ¬ EndsInDots name) :
    IsFixed name where
  throws := by
    rw [climbsAboveRoot_segments_iff ordinary]
    exact fixResourceName_eq_none_iff
  names := by
    intro fixed isFixed segment listed
    obtain ⟨dirVector, leads, notClass, rfl⟩ := fixResourceName_eq_some_iff.1 isFixed
    obtain ⟨sameDirectories, sameLast, names⟩ := splitSegments_fixed leads
    rw [segments, sameDirectories, sameLast, List.mem_append] at listed
    rcases listed with isDirectory | isLast
    · exact names segment isDirectory
    · split at isLast
      · cases isLast
      · next notEmpty =>
          rw [List.mem_singleton] at isLast
          rw [EndsInDots, not_or] at ordinary
          rw [isLast]
          exact ⟨notEmpty, ordinary⟩
  sameEntry := fun _ isFixed => sameEntry_fixed isFixed
  twice := fixResourceName_twice name

/-- Behind directories inside the root a final segment of dots is kept. -/
theorem not_isFixed
    {name : JavaString}
    (inside : ¬ ClimbsAboveRoot (directories name))
    (dots : EndsInDots name) :
    ¬ IsFixed name := by
  intro isFixed
  have notClass : ¬ IsClassFile name := by
    rintro ⟨longer, _⟩
    rcases dots with same | same <;> simp [same, classSuffix, currentDir, parentDir] at longer
  cases result : fixResourceName name with
  | none =>
      rcases fixResourceName_eq_none_iff.1 result with climbs | isClass
      · exact inside climbs
      · exact notClass isClass
  | some fixed =>
      obtain ⟨dirVector, leads, _, rfl⟩ := fixResourceName_eq_some_iff.1 result
      obtain ⟨_, sameLast, _⟩ := splitSegments_fixed leads
      have notEmpty : lastSegment name ≠ [] := by
        rcases dots with same | same <;> simp [same, currentDir, parentDir]
      have listed : lastSegment name ∈ segments (dirName dirVector ++ lastSegment name) := by
        rw [segments, sameLast, if_neg notEmpty]
        exact List.mem_append_right _ List.mem_cons_self
      have isName := isFixed.names _ result _ listed
      exact dots.elim isName.2.1 isName.2.2

/-- The names that are brought into form. -/
theorem isFixed_iff (name : JavaString) :
    IsFixed name ↔ ClimbsAboveRoot (directories name) ∨ ¬ EndsInDots name := by
  constructor
  · intro isFixed
    by_contra neither
    rw [not_or, not_not] at neither
    exact not_isFixed neither.1 neither.2 isFixed
  · rintro (climbs | ordinary)
    · exact IsFixed.of_climbs climbs
    · exact IsFixed.of_ordinary ordinary

/-- The name `..` is kept as it is. -/
theorem parentDir_kept : fixResourceName parentDir = some parentDir ∧ ¬ ∀ name, IsFixed name := by
  have isLast : lastSegment parentDir = parentDir := rfl
  have inside : ¬ ClimbsAboveRoot (directories parentDir) := by
    rintro ⟨front, rest, split, _⟩
    cases front <;> cases split
  constructor
  · have notClass : ¬ IsClassFile parentDir := by
      rintro ⟨longer, _⟩
      rw [isLast] at longer
      exact absurd longer (by decide)
    exact fixResourceName_eq_some_iff.2 ⟨[], .here, notClass, rfl⟩
  · intro always
    exact not_isFixed inside (Or.inr isLast) (always parentDir)

end PicoJvm.ResourceNames
