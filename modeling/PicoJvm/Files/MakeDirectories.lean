import PicoJvm.Files.Pathnames
import PicoJvm.Lib.DirectoryTree

/-!
# Making directories

`File.mkdirs` tries to make the directory, then those above it, then the directory again. What the
file systems do with a path is given, as far as they say it.
-/

namespace PicoJvm.Files

open PicoJvm.Lib
open PicoJvm.Lib.DirectoryTree

/-! ## The natives and `mkdirs` -/

/-- The file systems, and what is on the stack for a name that is too long. -/
structure Host (lfs sd : Type) where
  littleFs : FileSystem lfs Bool
  sdCard : FileSystem sd Bool
  stack : CString

namespace File

variable {lfs sd : Type} (host : Host lfs sd)

/-- `exists`. -/
def exists' (file : File) (contents : Contents lfs sd) : Bool × Contents lfs sd :=
  native host.littleFs host.sdCard .exists (kniStringToPath host.stack file.path) contents

/-- `mkdir`. -/
def mkdir (file : File) (contents : Contents lfs sd) : Bool × Contents lfs sd :=
  native host.littleFs host.sdCard .mkdir (kniStringToPath host.stack file.path) contents

theorem getParentFile_shorter
    {file parent : File}
    (given : file.getParentFile = some parent) :
    parent.path.length < file.path.length := by
  obtain ⟨front, isParent, isNew⟩ := Option.map_eq_some_iff.mp given
  obtain ⟨rest, split, -, -⟩ := getParent_some isParent
  have noBackslash : 92 ∉ front := by
    intro member
    apply normalize_noBackslash file.path
    rw [file.normalized, split]
    exact List.mem_append_left _ member
  obtain ⟨count, slashes⟩ := eq_normalize_append noBackslash
  have sameLength := congrArg List.length slashes
  have whole := congrArg List.length split
  have samePath : parent.path = normalize front := by
    rw [← isNew]
    rfl
  rw [List.length_append, ← samePath] at sameLength
  rw [List.length_append, List.length_cons] at whole
  omega

/-- `mkdirs`. -/
def mkdirs (file : File) (contents : Contents lfs sd) : Bool × Contents lfs sd :=
  let found := file.exists' host contents
  if found.1 then
    (false, found.2)
  else
    let made := file.mkdir host found.2
    if made.1 then
      (true, made.2)
    else
      match _given : file.getParentFile with
      | some parent => file.mkdir host (parent.mkdirs made.2).2
      | none => (false, made.2)
termination_by file.path.length
decreasing_by
  exact getParentFile_shorter _given

end File

/-! ## File systems that hold a tree -/

/-- What is documented of a file system, whose names are compared as `canonical` says: it finds
what is in its tree, and `mkdir` makes a directory in a directory or changes nothing. A path with
`.` or `..` is not spoken of. -/
structure HoldsTree {state name : Type} [DecidableEq name] (fileSystem : FileSystem state Bool)
    (canonical : CString → name) (tree : state → DirectoryTree name) : Prop where
  exists_iff : ∀ path current, Plain path → parts path ≠ [] →
    ((fileSystem.perform .exists path current).1 = true ↔
      (tree current).kind ((parts path).map canonical) ≠ none)
  exists_tree : ∀ path current,
    tree (fileSystem.perform .exists path current).2 = tree current
  mkdir_makes : ∀ path current, Plain path → (fileSystem.perform .mkdir path current).1 = true →
    Makes (tree current) ((parts path).map canonical)
      (tree (fileSystem.perform .mkdir path current).2)
  mkdir_refuses : ∀ path current, (fileSystem.perform .mkdir path current).1 = false →
    tree (fileSystem.perform .mkdir path current).2 = tree current

/-- It never refuses to make what is missing in a directory along a path. -/
def Accepts {state name : Type} (fileSystem : FileSystem state Bool)
    (canonical : CString → name) (tree : state → DirectoryTree name) (along : List name) : Prop :=
  ∀ path current last rest, Plain path → (parts path).map canonical = last :: rest →
    last :: rest <:+ along → (tree current).kind rest = some .directory →
      (tree current).kind (last :: rest) = none →
        (fileSystem.perform .mkdir path current).1 = true

/-! ## One level -/

section Level

variable {lfs sd name name' : Type} [DecidableEq name] {host : Host lfs sd}

/-- What a file finds and makes at a path of a tree, with another tree that it does not touch. -/
structure Governs (host : Host lfs sd) (file : File) (tree : Contents lfs sd → DirectoryTree name)
    (other : Contents lfs sd → DirectoryTree name') (path : List name) : Prop where
  found : ∀ contents, path ≠ [] →
    ((file.exists' host contents).1 = true ↔ (tree contents).kind path ≠ none)
  foundTrees : ∀ contents, tree (file.exists' host contents).2 = tree contents ∧
    other (file.exists' host contents).2 = other contents
  makes : ∀ contents, (file.mkdir host contents).1 = true →
    Makes (tree contents) path (tree (file.mkdir host contents).2)
  refuses : ∀ contents, (file.mkdir host contents).1 = false →
    tree (file.mkdir host contents).2 = tree contents
  untouched : ∀ contents, other (file.mkdir host contents).2 = other contents

/-- What `mkdirs` does: directories along the path come into being and nothing else, and it
returns whether the directory has come into being. -/
structure MkdirsOutcome (tree : Contents lfs sd → DirectoryTree name)
    (other : Contents lfs sd → DirectoryTree name') (path : List name) (contents : Contents lfs sd)
    (result : Bool × Contents lfs sd) : Prop where
  madeAlong : MadeAlong path (tree contents) (tree result.2)
  untouched : other result.2 = other contents
  returned : result.1 = true ↔ (tree contents).kind path ≠ some .directory ∧
    (tree result.2).kind path = some .directory

variable {file : File} {tree : Contents lfs sd → DirectoryTree name}
  {other : Contents lfs sd → DirectoryTree name'} {path : List name}
  {contents : Contents lfs sd}

omit [DecidableEq name] in
/-- Nothing is changed, and nothing is returned. -/
theorem MkdirsOutcome.unchanged
    {after : Contents lfs sd}
    (same : tree after = tree contents)
    (untouched : other after = other contents) :
    MkdirsOutcome tree other path contents (false, after) where
  madeAlong := by
    rw [same]
    exact .refl path _
  untouched := untouched
  returned := by
    dsimp only
    rw [same]
    constructor
    · intro returned
      cases returned
    · intro contradictory
      exact absurd contradictory.2 contradictory.1

/-- The last attempt, when the directories above it may have been made. -/
theorem Governs.mkdir_outcome
    (governs : Governs host file tree other path)
    {before : Contents lfs sd}
    (madeAlong : MadeAlong path (tree before) (tree contents))
    (sameEnd : (tree contents).kind path = (tree before).kind path)
    (untouched : other contents = other before) :
    MkdirsOutcome tree other path before (file.mkdir host contents) := by
  cases made : (file.mkdir host contents).1 with
  | true =>
      have makes := governs.makes contents made
      refine ⟨madeAlong.then_made makes, (governs.untouched contents).trans untouched, ?_⟩
      rw [made, ← sameEnd, makes.missing, makes.made]
      simp
  | false =>
      have same := governs.refuses contents made
      refine ⟨?_, (governs.untouched contents).trans untouched, ?_⟩
      · rw [same]
        exact madeAlong
      · rw [made, same, sameEnd]
        constructor
        · intro returned
          cases returned
        · intro contradictory
          exact absurd contradictory.2 contradictory.1

/-- `mkdirs`, when the parent behaves. It is only asked when `mkdir` has refused what is
missing. -/
theorem Governs.mkdirs_outcome
    (governs : Governs host file tree other path)
    (contents : Contents lfs sd)
    (above : ∀ parent, file.getParentFile = some parent → ∀ between,
      tree between = tree contents → other between = other contents →
        (path ≠ [] → (tree contents).kind path = none) →
          (∃ asked, tree asked = tree contents ∧ (file.mkdir host asked).1 = false) →
            MadeAlong path.tail (tree between) (tree (parent.mkdirs host between).2) ∧
              other (parent.mkdirs host between).2 = other between) :
    MkdirsOutcome tree other path contents (file.mkdirs host contents) := by
  obtain ⟨foundTree, foundOther⟩ := governs.foundTrees contents
  rw [File.mkdirs]
  dsimp only
  cases found : (file.exists' host contents).1 with
  | true =>
      rw [if_pos rfl]
      exact .unchanged foundTree foundOther
  | false =>
      rw [if_neg Bool.false_ne_true]
      have missing : path ≠ [] → (tree contents).kind path = none := by
        intro notRoot
        by_contra some
        rw [(governs.found contents notRoot).mpr some] at found
        cases found
      have first : MkdirsOutcome tree other path contents
          (file.mkdir host (file.exists' host contents).2) := by
        apply governs.mkdir_outcome
        · rw [foundTree]
          exact .refl path _
        · rw [foundTree]
        · exact foundOther
      cases made : (file.mkdir host (file.exists' host contents).2).1 with
      | true =>
          rw [if_pos rfl]
          exact ⟨first.madeAlong, first.untouched, made ▸ first.returned⟩
      | false =>
          rw [if_neg Bool.false_ne_true]
          have refused := governs.refuses _ made
          have untouched := governs.untouched (file.exists' host contents).2
          split
          · rename_i parent given
            obtain ⟨madeAbove, otherAbove⟩ := above parent given _ (refused.trans foundTree)
              (untouched.trans foundOther) missing ⟨_, foundTree, made⟩
            rw [refused.trans foundTree] at madeAbove
            have sameOther := otherAbove.trans (untouched.trans foundOther)
            cases path with
            | nil =>
                exact governs.mkdir_outcome madeAbove
                  ((tree _).root.trans (tree contents).root.symm) sameOther
            | cons last rest =>
                exact governs.mkdir_outcome (madeAbove.cons last) (madeAbove.at_end last) sameOther
          · exact .unchanged (refused.trans foundTree) (untouched.trans foundOther)

/-- Where nothing is refused, the directory is there afterwards. -/
theorem Governs.mkdirs_complete
    (governs : Governs host file tree other path)
    (contents : Contents lfs sd)
    (notFile : (tree contents).kind path ≠ some .file)
    (accepts : ∀ between last rest, path = last :: rest →
      (tree between).kind rest = some .directory → (tree between).kind path = none →
        (file.mkdir host between).1 = true)
    (above : ∀ last rest, path = last :: rest → (tree contents).kind rest ≠ some .directory →
      ∃ parent, file.getParentFile = some parent ∧ ∀ between, tree between = tree contents →
        other between = other contents →
          (tree (parent.mkdirs host between).2).kind rest = some .directory ∧
            (tree (parent.mkdirs host between).2).kind path = (tree contents).kind path) :
    (tree (file.mkdirs host contents).2).kind path = some .directory := by
  obtain ⟨foundTree, foundOther⟩ := governs.foundTrees contents
  cases path with
  | nil =>
      exact (tree _).root
  | cons last rest =>
      rw [File.mkdirs]
      dsimp only
      cases found : (file.exists' host contents).1 with
      | true =>
          have isThere := (governs.found contents (List.cons_ne_nil _ _)).mp found
          rw [if_pos rfl, foundTree]
          cases kind : (tree contents).kind (last :: rest) with
          | none =>
              exact absurd kind isThere
          | some what =>
              cases what with
              | file =>
                  exact absurd kind notFile
              | directory =>
                  rfl
      | false =>
          have missing : (tree contents).kind (last :: rest) = none := by
            by_contra isThere
            rw [(governs.found contents (List.cons_ne_nil _ _)).mpr isThere] at found
            cases found
          rw [if_neg Bool.false_ne_true]
          cases made : (file.mkdir host (file.exists' host contents).2).1 with
          | true =>
              rw [if_pos rfl]
              exact (governs.makes _ made).made
          | false =>
              rw [if_neg Bool.false_ne_true]
              have refused := (governs.refuses _ made).trans foundTree
              have untouched := (governs.untouched (file.exists' host contents).2).trans foundOther
              have notInDirectory : (tree contents).kind rest ≠ some .directory := by
                intro inDirectory
                rw [accepts _ last rest rfl (by rw [foundTree]; exact inDirectory)
                  (by rw [foundTree]; exact missing)] at made
                cases made
              obtain ⟨parent, isParent, madeAbove⟩ := above last rest rfl notInDirectory
              obtain ⟨directory, sameEnd⟩ := madeAbove _ refused untouched
              split
              · rename_i parent' given
                rw [isParent] at given
                cases given
                apply Makes.made
                apply governs.makes
                exact accepts _ last rest rfl directory (sameEnd.trans missing)
              · rename_i given
                rw [isParent] at given
                cases given

/-- Files at the paths of a tree: the parent of a file is at the rest of its path. -/
structure Along (host : Host lfs sd) (tree : Contents lfs sd → DirectoryTree name)
    (other : Contents lfs sd → DirectoryTree name') (at' : File → List name → Prop) : Prop where
  governs : ∀ ⦃file path⦄, at' file path → Governs host file tree other path
  outcome : ∀ ⦃file path⦄, at' file path → ∀ contents,
    MkdirsOutcome tree other path contents (file.mkdirs host contents)
  parent : ∀ ⦃file last rest⦄, at' file (last :: rest) → rest ≠ [] →
    ∃ parent, file.getParentFile = some parent ∧ at' parent rest

/-- Everything along the path is made, unless there is a file on the way or something is
refused. -/
theorem Along.mkdirs_complete
    {at' : File → List name → Prop}
    (along : Along host tree other at')
    {whole : List name}
    (accepts : ∀ ⦃file last rest⦄, at' file (last :: rest) → last :: rest <:+ whole →
      ∀ between, (tree between).kind rest = some .directory →
        (tree between).kind (last :: rest) = none → (file.mkdir host between).1 = true)
    {contents : Contents lfs sd}
    (noFile : ∀ ancestor, ancestor <:+ whole → (tree contents).kind ancestor ≠ some .file)
    (path : List name)
    (onWay : path <:+ whole)
    {file : File}
    (isAt : at' file path)
    {between : Contents lfs sd}
    (sameTree : tree between = tree contents) :
    (tree (file.mkdirs host between).2).kind path = some .directory := by
  induction path generalizing file between with
  | nil =>
      exact (tree _).root
  | cons last rest inductionHypothesis =>
      have restOnWay : rest <:+ whole := (List.suffix_cons last rest).trans onWay
      apply (along.governs isAt).mkdirs_complete between
      · rw [sameTree]
        exact noFile _ onWay
      · intro later last' rest' split directory missing
        cases split
        exact accepts isAt onWay later directory missing
      · intro last' rest' split notDirectory
        cases split
        have notRoot : rest ≠ [] := by
          intro root
          rw [root] at notDirectory
          exact notDirectory (tree between).root
        obtain ⟨parent, given, parentAt⟩ := along.parent isAt notRoot
        refine ⟨parent, given, ?_⟩
        intro later laterTree _
        have outcome := along.outcome parentAt later
        refine ⟨inductionHypothesis restOnWay parentAt (laterTree.trans sameTree), ?_⟩
        rw [outcome.madeAlong.at_end, laterTree]

end Level

/-! ## Files on one file system -/

section Trees

variable {lfs sd name name' : Type} [DecidableEq name] [DecidableEq name'] {host : Host lfs sd}
  {canonical : CString → name} {canonical' : CString → name'}
  {lfsTree : lfs → DirectoryTree name} {sdTree : sd → DirectoryTree name'} {file : File}

omit [DecidableEq name'] in
/-- The natives of a file use one file system. -/
theorem governs_of_natives
    {state : Type} {fileSystem : FileSystem state Bool} {stateTree : state → DirectoryTree name}
    (holds : HoldsTree fileSystem canonical stateTree)
    {path : CString}
    (plain : Plain path)
    (view : Contents lfs sd → state)
    (other : Contents lfs sd → DirectoryTree name')
    (found : ∀ contents,
      (file.exists' host contents).1 = (fileSystem.perform .exists path (view contents)).1 ∧
        view (file.exists' host contents).2 =
          (fileSystem.perform .exists path (view contents)).2 ∧
            other (file.exists' host contents).2 = other contents)
    (made : ∀ contents,
      (file.mkdir host contents).1 = (fileSystem.perform .mkdir path (view contents)).1 ∧
        view (file.mkdir host contents).2 = (fileSystem.perform .mkdir path (view contents)).2 ∧
          other (file.mkdir host contents).2 = other contents) :
    Governs host file (fun contents => stateTree (view contents)) other
      ((parts path).map canonical) where
  found := by
    intro contents notRoot
    rw [(found contents).1]
    exact holds.exists_iff _ _ plain (fun none => notRoot (List.map_eq_nil_iff.mpr none))
  foundTrees := by
    intro contents
    obtain ⟨_, view, untouched⟩ := found contents
    rw [view]
    exact ⟨holds.exists_tree _ _, untouched⟩
  makes := by
    intro contents
    obtain ⟨answer, view, _⟩ := made contents
    rw [answer, view]
    exact holds.mkdir_makes _ _ plain
  refuses := by
    intro contents
    obtain ⟨answer, view, _⟩ := made contents
    rw [answer, view]
    exact holds.mkdir_refuses _ _
  untouched := by
    intro contents
    exact (made contents).2.2

/-- A native of a file that is not on the card. -/
theorem native_littleFs
    (convertible : Convertible file.path)
    (notSd : isSdPath (spelledPath file.path) = false)
    (operation : FileOperation)
    (contents : Contents lfs sd) :
    native host.littleFs host.sdCard operation (kniStringToPath host.stack file.path) contents =
      onLittleFs host.littleFs operation (spelledPath file.path) contents := by
  rw [convertible.path, native_eq, routed, notSd, if_neg Bool.false_ne_true]

theorem native_sdCard
    (convertible : Convertible file.path)
    (isSd : isSdPath (spelledPath file.path) = true)
    (operation : FileOperation)
    (contents : Contents lfs sd) :
    native host.littleFs host.sdCard operation (kniStringToPath host.stack file.path) contents =
      onSdCard host.sdCard operation (sdRelPath (spelledPath file.path)) contents := by
  rw [convertible.path, native_eq, routed, if_pos isSd]

omit [DecidableEq name'] in
theorem governs_littleFs
    (sdTree : sd → DirectoryTree name')
    (holds : HoldsTree host.littleFs canonical lfsTree)
    (convertible : Convertible file.path)
    (plain : Plain (spelledPath file.path))
    (notSd : isSdPath (spelledPath file.path) = false) :
    Governs host file (fun contents => lfsTree contents.littleFs)
      (fun contents => sdTree contents.sdCard)
      ((parts (spelledPath file.path)).map canonical) := by
  apply governs_of_natives holds plain
  · intro contents
    rw [File.exists', native_littleFs convertible notSd]
    exact ⟨rfl, rfl, rfl⟩
  · intro contents
    rw [File.mkdir, native_littleFs convertible notSd]
    exact ⟨rfl, rfl, rfl⟩

omit [DecidableEq name] in
theorem governs_sdCard
    (lfsTree : lfs → DirectoryTree name)
    (holds : HoldsTree host.sdCard canonical' sdTree)
    (convertible : Convertible file.path)
    (plain : Plain (sdRelPath (spelledPath file.path)))
    (isSd : isSdPath (spelledPath file.path) = true) :
    Governs host file (fun contents => sdTree contents.sdCard)
      (fun contents => lfsTree contents.littleFs)
      ((parts (sdRelPath (spelledPath file.path))).map canonical') := by
  apply governs_of_natives holds plain
  · intro contents
    rw [File.exists', native_sdCard convertible isSd]
    exact ⟨rfl, rfl, rfl⟩
  · intro contents
    rw [File.mkdir, native_sdCard convertible isSd]
    exact ⟨rfl, rfl, rfl⟩

theorem ParentOf.plain
    {parent : File} {last : CString}
    (parentOf : ParentOf parent file last)
    (plain : Plain (spelledPath file.path)) :
    Plain (spelledPath parent.path) := by
  intro part member
  apply plain
  rw [parentOf.names]
  exact List.mem_cons_of_mem last member

/-- A parent of what is not on the card is not on the card. -/
theorem ParentOf.notSd
    {parent : File} {last : CString}
    (parentOf : ParentOf parent file last)
    (notSd : isSdPath (spelledPath file.path) = false) :
    isSdPath (spelledPath parent.path) = false := by
  by_contra isSd
  rw [Bool.not_eq_false, isSdPath, decide_eq_true_eq] at isSd
  obtain ⟨more, whole⟩ := parentOf.isPrefix
  have long : 4 ≤ (spelledPath parent.path).length := by
    have length := congrArg List.length isSd
    rw [List.length_take] at length
    simp only [sdPrefix, List.length_cons, List.length_nil] at length
    omega
  have same : isSdPath (spelledPath file.path) = true := by
    rw [isSdPath, ← whole, List.take_append_of_le_length long, isSd]
    decide
  rw [same] at notSd
  cases notSd

omit [DecidableEq name'] in
/-- On LittleFS, `mkdirs` makes what is missing along the path and nothing else. -/
theorem mkdirs_littleFs
    (sdTree : sd → DirectoryTree name')
    (holds : HoldsTree host.littleFs canonical lfsTree)
    (bound : Nat)
    (file : File)
    (short : file.path.length < bound)
    (convertible : Convertible file.path)
    (plain : Plain (spelledPath file.path))
    (notSd : isSdPath (spelledPath file.path) = false)
    (contents : Contents lfs sd) :
    MkdirsOutcome (fun contents => lfsTree contents.littleFs)
      (fun contents => sdTree contents.sdCard)
      ((parts (spelledPath file.path)).map canonical) contents (file.mkdirs host contents) := by
  induction bound generalizing file contents with
  | zero =>
      omega
  | succ bound inductionHypothesis =>
      apply (governs_littleFs sdTree holds convertible plain notSd).mkdirs_outcome
      intro parent given between _ _ _ _
      obtain ⟨last, parentOf⟩ := File.getParentFile_some convertible given
      have shorter := parentOf.shorter
      have outcome := inductionHypothesis parent (by omega) parentOf.convertible
        (parentOf.plain plain) (parentOf.notSd notSd) between
      rw [parentOf.names]
      exact ⟨outcome.madeAlong, outcome.untouched⟩

/-- A file of LittleFS at a path. -/
def OnLittleFs (canonical : CString → name) (file : File) (path : List name) : Prop :=
  Convertible file.path ∧ Plain (spelledPath file.path) ∧
    isSdPath (spelledPath file.path) = false ∧
      path = (parts (spelledPath file.path)).map canonical

omit [DecidableEq name'] in
theorem along_littleFs
    (sdTree : sd → DirectoryTree name')
    (holds : HoldsTree host.littleFs canonical lfsTree) :
    Along host (fun contents => lfsTree contents.littleFs) (fun contents => sdTree contents.sdCard)
      (OnLittleFs canonical) where
  governs := by
    intro file path isAt
    obtain ⟨convertible, plain, notSd, rfl⟩ := isAt
    exact governs_littleFs sdTree holds convertible plain notSd
  outcome := by
    intro file path isAt contents
    obtain ⟨convertible, plain, notSd, rfl⟩ := isAt
    exact mkdirs_littleFs sdTree holds _ file (Nat.lt_succ_self _) convertible plain notSd contents
  parent := by
    intro file last rest isAt notRoot
    obtain ⟨convertible, plain, notSd, names⟩ := isAt
    cases given : file.getParentFile with
    | none =>
        have few := File.getParentFile_none convertible given
        have length := congrArg List.length names
        rw [List.length_map, List.length_cons] at length
        exact absurd (List.length_eq_zero_iff.mp (by omega)) notRoot
    | some parent =>
        obtain ⟨part, parentOf⟩ := File.getParentFile_some convertible given
        rw [parentOf.names, List.map_cons] at names
        exact ⟨parent, rfl, parentOf.convertible, parentOf.plain plain, parentOf.notSd notSd,
          (List.cons.inj names).2⟩

/-- The recursion does not come to `/sd` on LittleFS or finds it there: the first directory on the
card is there or is not refused, or `/sd` is there. -/
def StaysOnCard (host : Host lfs sd) (canonical : CString → name) (canonical' : CString → name')
    (lfsTree : lfs → DirectoryTree name) (sdTree : sd → DirectoryTree name')
    (path : List name') (contents : Contents lfs sd) : Prop :=
  ∀ first, [first] <:+ path → (sdTree contents.sdCard).kind [first] ≠ none ∨
    Accepts host.sdCard canonical' sdTree [first] ∨
      (lfsTree contents.littleFs).kind [canonical sdPart] ≠ none

theorem plain_sd
    {path : CString}
    (isSd : isSdPath path = true)
    (plain : Plain path) :
    Plain (sdRelPath path) := by
  intro part member
  apply plain
  rw [(parts_sd isSd).1]
  exact List.mem_append_left _ member

/-- On the card, `mkdirs` makes what is missing along the path and nothing else, as long as it
stays there. -/
theorem mkdirs_sdCard
    (lfsHolds : HoldsTree host.littleFs canonical lfsTree)
    (sdHolds : HoldsTree host.sdCard canonical' sdTree)
    (bound : Nat)
    (file : File)
    (short : file.path.length < bound)
    (convertible : Convertible file.path)
    (plain : Plain (spelledPath file.path))
    (isSd : isSdPath (spelledPath file.path) = true)
    (contents : Contents lfs sd)
    (stays : StaysOnCard host canonical canonical' lfsTree sdTree
      ((parts (sdRelPath (spelledPath file.path))).map canonical') contents) :
    MkdirsOutcome (fun contents => sdTree contents.sdCard)
      (fun contents => lfsTree contents.littleFs)
      ((parts (sdRelPath (spelledPath file.path))).map canonical') contents
        (file.mkdirs host contents) := by
  induction bound generalizing file contents with
  | zero =>
      omega
  | succ bound inductionHypothesis =>
      have governs := governs_sdCard lfsTree sdHolds convertible (plain_sd isSd plain) isSd
      apply governs.mkdirs_outcome
      intro parent given between sameTree sameOther missing asking
      obtain ⟨last, parentOf⟩ := File.getParentFile_some convertible given
      have shorter := parentOf.shorter
      rcases parentOf.onCard convertible isSd with ⟨parentSd, names⟩ | ⟨notSd, names, parentNames⟩
      · rw [names, List.map_cons] at stays ⊢
        have parentStays : StaysOnCard host canonical canonical' lfsTree sdTree
            ((parts (sdRelPath (spelledPath parent.path))).map canonical') between := by
          intro first onWay
          rw [sameTree, sameOther]
          exact stays first (onWay.trans (List.suffix_cons _ _))
        have outcome := inductionHypothesis parent (by omega) parentOf.convertible
          (parentOf.plain plain) parentSd between parentStays
        exact ⟨outcome.madeAlong, outcome.untouched⟩
      · rw [names, List.map_singleton] at stays missing
        have noFirst := missing (List.cons_ne_nil _ _)
        rcases stays _ List.suffix_rfl with isThere | accepts | found
        · exact absurd noFirst isThere
        · obtain ⟨asked, askedTree, refused⟩ := asking
          rw [File.mkdir, native_sdCard convertible isSd] at refused
          have made := accepts (sdRelPath (spelledPath file.path)) asked.sdCard (canonical' last) []
            (plain_sd isSd plain) (by rw [names, List.map_singleton]) List.suffix_rfl
            (sdTree asked.sdCard).root (by rw [askedTree]; exact noFirst)
          rw [show (onSdCard host.sdCard .mkdir _ asked).1 = true from made] at refused
          cases refused
        · have outcome := mkdirs_littleFs sdTree lfsHolds _ parent (Nat.lt_succ_self _)
            parentOf.convertible (parentOf.plain plain) notSd between
          rw [parentNames, List.map_singleton] at outcome
          have unchanged := outcome.madeAlong.eq_of_found (by rw [sameOther]; exact found)
          rw [names, outcome.untouched]
          exact ⟨.refl _ _, unchanged⟩

/-- A file of the card at a path. -/
def OnCard (canonical' : CString → name') (file : File) (path : List name') : Prop :=
  Convertible file.path ∧ Plain (spelledPath file.path) ∧
    isSdPath (spelledPath file.path) = true ∧
      path = (parts (sdRelPath (spelledPath file.path))).map canonical'

omit [DecidableEq name] in
theorem Accepts.of_suffix
    {state : Type} {fileSystem : FileSystem state Bool} {stateTree : state → DirectoryTree name}
    {whole path : List name}
    (accepts : Accepts fileSystem canonical stateTree whole)
    (onWay : path <:+ whole) :
    Accepts fileSystem canonical stateTree path := by
  intro given current last rest plain split suffix
  exact accepts given current last rest plain split (suffix.trans onWay)

omit [DecidableEq name] [DecidableEq name'] in
/-- A card that refuses nothing is not left. -/
theorem Accepts.stays
    {whole path : List name'}
    (accepts : Accepts host.sdCard canonical' sdTree whole)
    (onWay : path <:+ whole)
    (contents : Contents lfs sd) :
    StaysOnCard host canonical canonical' lfsTree sdTree path contents := by
  intro first above
  exact .inr (.inl (accepts.of_suffix (above.trans onWay)))

theorem along_sdCard
    (lfsHolds : HoldsTree host.littleFs canonical lfsTree)
    (sdHolds : HoldsTree host.sdCard canonical' sdTree)
    {whole : List name'}
    (accepts : Accepts host.sdCard canonical' sdTree whole) :
    Along host (fun contents => sdTree contents.sdCard) (fun contents => lfsTree contents.littleFs)
      (fun file path => OnCard canonical' file path ∧ path <:+ whole) where
  governs := by
    intro file path isAt
    obtain ⟨⟨convertible, plain, isSd, rfl⟩, _⟩ := isAt
    exact governs_sdCard lfsTree sdHolds convertible (plain_sd isSd plain) isSd
  outcome := by
    intro file path isAt contents
    obtain ⟨⟨convertible, plain, isSd, rfl⟩, onWay⟩ := isAt
    exact mkdirs_sdCard lfsHolds sdHolds _ file (Nat.lt_succ_self _) convertible plain isSd
      contents (accepts.stays onWay contents)
  parent := by
    intro file last rest isAt notRoot
    obtain ⟨⟨convertible, plain, isSd, names⟩, onWay⟩ := isAt
    cases given : file.getParentFile with
    | none =>
        have few := File.getParentFile_none convertible given
        have length := congrArg List.length names
        rw [List.length_map, List.length_cons] at length
        rw [(parts_sd isSd).1, List.length_append, List.length_singleton] at few
        omega
    | some parent =>
        obtain ⟨part, parentOf⟩ := File.getParentFile_some convertible given
        rcases parentOf.onCard convertible isSd with ⟨parentSd, above⟩ | ⟨_, above, _⟩
        · rw [above, List.map_cons] at names
          exact ⟨parent, rfl, ⟨parentOf.convertible, parentOf.plain plain, parentSd,
            (List.cons.inj names).2⟩, (List.suffix_cons last rest).trans onWay⟩
        · rw [above, List.map_singleton] at names
          exact absurd (List.cons.inj names).2 notRoot

/-- What `mkdirs` does, and that it makes everything that is missing when nothing is refused and
no file is on the way. -/
structure MakesMissing (tree : Contents lfs sd → DirectoryTree name)
    (other : Contents lfs sd → DirectoryTree name') (path : List name) (accepts : Prop)
    (contents : Contents lfs sd) (result : Bool × Contents lfs sd) : Prop
    extends MkdirsOutcome tree other path contents result where
  complete : accepts →
    (∀ ancestor, ancestor <:+ path → (tree contents).kind ancestor ≠ some .file) →
      ∀ ancestor, ancestor <:+ path → (tree result.2).kind ancestor = some .directory

/-- `mkdirs` always returns. It makes missing directories along its path on its own file system,
all of them if none is refused and no file is on the way, and nothing else; and it returns whether
the last one has come into being. -/
theorem mkdirs_makesMissing
    (lfsHolds : HoldsTree host.littleFs canonical lfsTree)
    (sdHolds : HoldsTree host.sdCard canonical' sdTree)
    (file : File)
    (convertible : Convertible file.path)
    (plain : Plain (spelledPath file.path))
    (contents : Contents lfs sd) :
    (isSdPath (spelledPath file.path) = false →
      let path := (parts (spelledPath file.path)).map canonical
      MakesMissing (fun contents => lfsTree contents.littleFs)
        (fun contents => sdTree contents.sdCard) path
        (Accepts host.littleFs canonical lfsTree path) contents (file.mkdirs host contents)) ∧
    (isSdPath (spelledPath file.path) = true →
      let path := (parts (sdRelPath (spelledPath file.path))).map canonical'
      StaysOnCard host canonical canonical' lfsTree sdTree path contents →
        MakesMissing (fun contents => sdTree contents.sdCard)
          (fun contents => lfsTree contents.littleFs) path
          (Accepts host.sdCard canonical' sdTree path) contents (file.mkdirs host contents)) := by
  constructor
  · intro notSd path
    have isAt : OnLittleFs canonical file path := ⟨convertible, plain, notSd, rfl⟩
    have along := along_littleFs sdTree lfsHolds
    refine ⟨along.outcome isAt contents, ?_⟩
    intro accepts noFile
    apply directories_of_directory
    apply along.mkdirs_complete _ noFile path List.suffix_rfl isAt rfl
    intro other last rest otherAt onWay between directory missing
    obtain ⟨otherConvertible, otherPlain, otherSd, names⟩ := otherAt
    rw [File.mkdir, native_littleFs otherConvertible otherSd]
    exact accepts _ between.littleFs last rest otherPlain names.symm onWay directory missing
  · intro isSd path stays
    have isAt : OnCard canonical' file path := ⟨convertible, plain, isSd, rfl⟩
    refine ⟨mkdirs_sdCard lfsHolds sdHolds _ file (Nat.lt_succ_self _) convertible plain isSd
      contents stays, ?_⟩
    intro accepts noFile
    apply directories_of_directory
    apply (along_sdCard lfsHolds sdHolds accepts).mkdirs_complete _ noFile path List.suffix_rfl
      ⟨isAt, List.suffix_rfl⟩ rfl
    intro other last rest otherAt onWay between directory missing
    obtain ⟨⟨otherConvertible, otherPlain, otherSd, names⟩, _⟩ := otherAt
    rw [File.mkdir, native_sdCard otherConvertible otherSd]
    exact accepts _ between.sdCard last rest (plain_sd otherSd otherPlain) names.symm onWay
      directory missing

end Trees

/-! ## A file system that is a tree -/

/-- Every directory that can be made is made. -/
def treeFiles : FileSystem (DirectoryTree CString) Bool where
  perform operation path tree :=
    match operation, parts path with
    | .exists, names => (decide (tree.kind names ≠ none), tree)
    | .mkdir, last :: rest =>
        if inside : tree.kind rest = some .directory ∧ tree.kind (last :: rest) = none then
          (true, tree.makeDirectory last rest inside.1)
        else
          (false, tree)
    | _, _ => (false, tree)
  rename _ _ tree := (false, tree)

theorem treeFiles_holdsTree : HoldsTree treeFiles id id where
  exists_iff := by
    intro path tree _ _
    rw [List.map_id]
    exact decide_eq_true_iff
  exists_tree := by
    intro path tree
    rfl
  mkdir_makes := by
    intro path tree _ made
    rw [List.map_id]
    cases names : parts path with
    | nil =>
        simp [treeFiles, names] at made
    | cons last rest =>
        by_cases inside : tree.kind rest = some .directory ∧ tree.kind (last :: rest) = none
        · simp only [treeFiles, names, dif_pos inside]
          exact ⟨inside.2, rfl⟩
        · simp [treeFiles, names, dif_neg inside] at made
  mkdir_refuses := by
    intro path tree refused
    cases names : parts path with
    | nil =>
        simp [treeFiles, names]
    | cons last rest =>
        by_cases inside : tree.kind rest = some .directory ∧ tree.kind (last :: rest) = none
        · simp [treeFiles, names, dif_pos inside] at refused
        · simp [treeFiles, names, dif_neg inside]

/-- Only the root, and perhaps the file `a` in it. -/
def small (kind : Option Kind) : DirectoryTree CString where
  kind path := if path = [] then some .directory else if path = [[97]] then kind else none
  root := rfl
  closed := by
    intro last rest found
    rw [if_neg (List.cons_ne_nil last rest)] at found
    split at found
    · rename_i same
      rw [(List.cons.inj same).2]
      rfl
    · exact absurd rfl found

def treeHost : Host (DirectoryTree CString) (DirectoryTree CString) :=
  ⟨treeFiles, treeFiles, []⟩

/-- The file `/a/b`. -/
def slashAB : File :=
  .new [47, 97, 47, 98]

theorem slashAB_convertible : Convertible slashAB.path where
  fits := by
    decide
  bytes := by
    have all : slashAB.path.all (fun char => decide (char ≠ 0 ∧ char < 256)) = true := by
      decide
    intro char member
    exact of_decide_eq_true (List.all_eq_true.mp all char member)

/-- Both directories are made. -/
theorem slashAB_makesMissing :
    (isSdPath (spelledPath slashAB.path) = false →
      let path := (parts (spelledPath slashAB.path)).map id
      MakesMissing (fun contents => id contents.littleFs) (fun contents => id contents.sdCard) path
        (Accepts treeHost.littleFs id id path) ⟨small none, small none⟩
        (slashAB.mkdirs treeHost ⟨small none, small none⟩)) ∧
    (isSdPath (spelledPath slashAB.path) = true →
      let path := (parts (sdRelPath (spelledPath slashAB.path))).map id
      StaysOnCard treeHost id id id id path ⟨small none, small none⟩ →
        MakesMissing (fun contents => id contents.sdCard) (fun contents => id contents.littleFs)
          path
          (Accepts treeHost.sdCard id id path) ⟨small none, small none⟩
          (slashAB.mkdirs treeHost ⟨small none, small none⟩)) :=
  mkdirs_makesMissing treeFiles_holdsTree treeFiles_holdsTree slashAB
    slashAB_convertible (by decide) ⟨small none, small none⟩

example :
    (slashAB.mkdirs treeHost ⟨small none, small none⟩).1 = true ∧
      (slashAB.mkdirs treeHost ⟨small none, small none⟩).2.littleFs.kind [[98], [97]] =
        some .directory := by
  decide +kernel

/-- Where `a` is a file, `/a/b` is missing and is not made. -/
theorem slashAB_notMade :
    (small (some .file)).kind [[98], [97]] = none ∧
      (slashAB.mkdirs treeHost ⟨small (some .file), small none⟩).1 = false ∧
        (slashAB.mkdirs treeHost ⟨small (some .file), small none⟩).2.littleFs.kind [[98], [97]] =
          none := by
  decide +kernel

end PicoJvm.Files
