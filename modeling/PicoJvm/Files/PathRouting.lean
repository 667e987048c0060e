import Mathlib.Data.List.Basic

/-!
# Path routing

`java.io.File` normalises pathnames, and its natives hand them to LittleFS or, by their
prefix, to the SD card. Both file systems stand for themselves here: what they do with a path
is given.
-/

namespace PicoJvm.Files

/-- A string of Java, as its `char` values. -/
abbrev JavaString := List UInt16

/-- A string of C, without its terminator. -/
abbrev CString := List UInt8

/-! ## Pathnames -/

/-- The loop of `normalize`, on the reversed string. -/
def removeSlashes : JavaString → JavaString
  | last :: next :: rest => if last = 47 then removeSlashes (next :: rest) else last :: next :: rest
  | short => short

/-- `File.normalize`: slashes for backslashes, and none at the end of a longer path. -/
def normalize (pathname : JavaString) : JavaString :=
  (removeSlashes (pathname.map fun char => if char = 92 then 47 else char).reverse).reverse

/-- `MAX_PATH_LEN`. -/
def maxPathLen : Nat := 256

/-- The buffer of a native behind `kni_string_to_path`, as a string of C. A string that is too
long leaves it as it was, and no native looks at what is returned. -/
def kniStringToPath (stack : CString) (string : JavaString) : CString :=
  if string.length ≥ maxPathLen then
    stack
  else
    (string.map UInt16.toUInt8).takeWhile (· ≠ 0)

/-- `SD_PREFIX`. -/
def sdPrefix : CString := [47, 115, 100, 47]

/-- `is_sd_path`. -/
def isSdPath (path : CString) : Bool :=
  path.take 4 = sdPrefix

/-- `sd_rel_path`. -/
def sdRelPath (path : CString) : CString :=
  let rel := path.drop 3
  if rel = [] then [47] else rel

/-! ## Natives -/

/-- The operations of `java.io.File`, and opening for a stream. -/
inductive FileOperation
  | exists
  | isDirectory
  | isFile
  | length
  | delete
  | mkdir
  | list
  | open (mode : Int)
  deriving DecidableEq, Repr

/-- What a file system does. -/
structure FileSystem (state answer : Type) where
  perform : FileOperation → CString → state → answer × state
  rename : CString → CString → state → Bool × state

/-- The contents of both file systems. -/
structure Contents (lfs sd : Type) where
  littleFs : lfs
  sdCard : sd

section Natives

variable {lfs sd answer : Type}

/-- An operation of LittleFS. -/
def onLittleFs (littleFs : FileSystem lfs answer) (operation : FileOperation) (path : CString)
    (contents : Contents lfs sd) : answer × Contents lfs sd :=
  let (given, next) := littleFs.perform operation path contents.littleFs
  (given, { contents with littleFs := next })

/-- An operation of the SD card. -/
def onSdCard (sdCard : FileSystem sd answer) (operation : FileOperation) (path : CString)
    (contents : Contents lfs sd) : answer × Contents lfs sd :=
  let (given, next) := sdCard.perform operation path contents.sdCard
  (given, { contents with sdCard := next })

variable (littleFs : FileSystem lfs answer) (sdCard : FileSystem sd answer)

/-- How each native chooses its file system. -/
def routed (operation : FileOperation) (path : CString) (contents : Contents lfs sd) :
    answer × Contents lfs sd :=
  if isSdPath path then
    onSdCard sdCard operation (sdRelPath path) contents
  else
    onLittleFs littleFs operation path contents

def fileExists := routed littleFs sdCard .exists

def fileIsDirectory := routed littleFs sdCard .isDirectory

def fileIsFile := routed littleFs sdCard .isFile

def fileLength := routed littleFs sdCard .length

def fileDelete := routed littleFs sdCard .delete

def fileMkdir := routed littleFs sdCard .mkdir

def fileList := routed littleFs sdCard .list

/-- `file_open` of both streams. -/
def streamOpen (mode : Int) := routed littleFs sdCard (.open mode)

/-- The native of an operation. -/
def native : FileOperation → CString → Contents lfs sd → answer × Contents lfs sd
  | .exists => fileExists littleFs sdCard
  | .isDirectory => fileIsDirectory littleFs sdCard
  | .isFile => fileIsFile littleFs sdCard
  | .length => fileLength littleFs sdCard
  | .delete => fileDelete littleFs sdCard
  | .mkdir => fileMkdir littleFs sdCard
  | .list => fileList littleFs sdCard
  | .open mode => streamOpen littleFs sdCard mode

/-- `file_rename`. -/
def fileRename (oldPath newPath : CString) (contents : Contents lfs sd) :
    Bool × Contents lfs sd :=
  if isSdPath oldPath && isSdPath newPath then
    let (done, next) := sdCard.rename (sdRelPath oldPath) (sdRelPath newPath) contents.sdCard
    (done, { contents with sdCard := next })
  else
    let (done, next) := littleFs.rename oldPath newPath contents.littleFs
    (done, { contents with littleFs := next })

end Natives

/-! ## Where a path belongs -/

/-- A path names the root of the SD card or something below it. -/
def NamesSd (path : JavaString) : Prop :=
  path = [47, 115, 100] ∨ path.take 4 = [47, 115, 100, 47]

instance (path : JavaString) : Decidable (NamesSd path) :=
  inferInstanceAs (Decidable (_ ∨ _))

/-- Every operation on a pathname uses the file system it belongs to, whatever the file
systems do and whatever is on the stack. -/
def RoutesRight (pathname : JavaString) : Prop :=
  ∀ (lfs sd answer : Type) (littleFs : FileSystem lfs answer) (sdCard : FileSystem sd answer)
    (contents : Contents lfs sd) (operation : FileOperation) (stack : CString),
    let path := kniStringToPath stack (normalize pathname)
    ∃ given, native littleFs sdCard operation path contents =
      if NamesSd (normalize pathname) then
        onSdCard sdCard operation given contents
      else
        onLittleFs littleFs operation given contents

/-- The normalised path fits into the buffer of a native, is not the root of the SD card, and
only looks like a path on the SD card in its low bytes when it is one. -/
structure Routable (pathname : JavaString) : Prop where
  fits : (normalize pathname).length < maxPathLen
  notRoot : normalize pathname ≠ [47, 115, 100]
  faithful : ((normalize pathname).take 4).map UInt16.toUInt8 = sdPrefix →
    (normalize pathname).take 4 = [47, 115, 100, 47]

/-- The path that a native gets for a pathname that fits. -/
def nativePath (pathname : JavaString) : CString :=
  kniStringToPath [] (normalize pathname)

/-- Names on one file system are renamed there, and a rename from one to the other fails and
changes neither. -/
structure RenamesRight {lfs sd answer : Type}
    (littleFs : FileSystem lfs answer) (sdCard : FileSystem sd answer)
    (contents : Contents lfs sd) (oldName newName : JavaString) : Prop where
  together : (NamesSd (normalize oldName) ↔ NamesSd (normalize newName)) →
    ∀ stack stack', ∃ given given',
      fileRename littleFs sdCard (kniStringToPath stack (normalize oldName))
          (kniStringToPath stack' (normalize newName)) contents =
        if NamesSd (normalize oldName) then
          ((sdCard.rename given given' contents.sdCard).1,
            { contents with sdCard := (sdCard.rename given given' contents.sdCard).2 })
        else
          ((littleFs.rename given given' contents.littleFs).1,
            { contents with littleFs := (littleFs.rename given given' contents.littleFs).2 })
  across : ¬ (NamesSd (normalize oldName) ↔ NamesSd (normalize newName)) →
    ∀ stack stack',
      fileRename littleFs sdCard (kniStringToPath stack (normalize oldName))
          (kniStringToPath stack' (normalize newName)) contents = (false, contents)

/-- LittleFS is asked to rename across the file systems, and refuses. -/
def RefusesAcross {lfs sd answer : Type}
    (littleFs : FileSystem lfs answer) (contents : Contents lfs sd)
    (oldName newName : JavaString) : Prop :=
  ¬ (NamesSd (normalize oldName) ↔ NamesSd (normalize newName)) →
    littleFs.rename (nativePath oldName) (nativePath newName) contents.littleFs =
      (false, contents.littleFs)

/-! ## The prefix test -/

theorem take_takeWhile_eq_iff
    {item : Type} {condition : item → Bool} {start : List item}
    (holds : ∀ current ∈ start, condition current = true)
    (items : List item) :
    (items.takeWhile condition).take start.length = start ↔ items.take start.length = start := by
  induction start generalizing items with
  | nil =>
      simp
  | cons head rest inductionHypothesis =>
      have headHolds := holds head List.mem_cons_self
      cases items with
      | nil =>
          simp
      | cons first items =>
          by_cases same : first = head
          · subst same
            rw [List.takeWhile_cons_of_pos headHolds]
            simp only [List.length_cons, List.take_succ_cons, List.cons.injEq, true_and]
            exact inductionHypothesis
              (fun current isIn => holds current (List.mem_cons_of_mem _ isIn)) items
          · have left : ∀ tail : List item, (first :: tail).take (rest.length + 1) ≠
                head :: rest := by
              intro tail equal
              exact same (List.cons.inj equal).1
            simp only [List.length_cons]
            constructor
            · intro equal
              rw [List.takeWhile_cons] at equal
              split at equal
              · exact absurd equal (left _)
              · cases equal
            · intro equal
              exact absurd equal (left _)

/-- On a path that fits, the test looks at the low bytes of four characters. -/
theorem isSdPath_iff
    {path : JavaString}
    (fits : path.length < maxPathLen)
    (stack : CString) :
    isSdPath (kniStringToPath stack path) = true ↔
      (path.take 4).map UInt16.toUInt8 = sdPrefix := by
  have nonzero : ∀ byte ∈ sdPrefix, decide (byte ≠ 0) = true := by
    simp [sdPrefix]
  rw [kniStringToPath, if_neg (by omega), isSdPath, decide_eq_true_eq, List.map_take]
  exact take_takeWhile_eq_iff nonzero _

theorem kniStringToPath_of_fits
    {path : JavaString}
    (fits : path.length < maxPathLen)
    (stack : CString) :
    kniStringToPath stack path = kniStringToPath [] path := by
  rw [kniStringToPath, kniStringToPath, if_neg (by omega), if_neg (by omega)]

theorem Routable.isSdPath_iff_namesSd
    {pathname : JavaString}
    (routable : Routable pathname)
    (stack : CString) :
    isSdPath (kniStringToPath stack (normalize pathname)) = true ↔
      NamesSd (normalize pathname) := by
  rw [isSdPath_iff routable.fits]
  constructor
  · intro looks
    exact Or.inr (routable.faithful looks)
  · rintro (root | below)
    · exact absurd root routable.notRoot
    · rw [below]
      decide

/-- A native is its route. -/
theorem native_eq
    {lfs sd answer : Type}
    (littleFs : FileSystem lfs answer) (sdCard : FileSystem sd answer)
    (operation : FileOperation) :
    native littleFs sdCard operation = routed littleFs sdCard operation := by
  cases operation <;> rfl

theorem Routable.routesRight
    {pathname : JavaString}
    (routable : Routable pathname) :
    RoutesRight pathname := by
  intro lfs sd answer littleFs sdCard contents operation stack path
  have test : isSdPath path = true ↔ NamesSd (normalize pathname) :=
    routable.isSdPath_iff_namesSd stack
  rw [native_eq, routed]
  by_cases onSd : NamesSd (normalize pathname)
  · refine ⟨sdRelPath path, ?_⟩
    rw [if_pos onSd, if_pos (test.mpr onSd)]
  · refine ⟨path, ?_⟩
    rw [if_neg onSd, if_neg (fun isSd => onSd (test.mp isSd))]

/-- A file system that only answers with its name. -/
def named (name : Bool) : FileSystem Unit Bool where
  perform _ _ _ := (name, ())
  rename _ _ _ := (name, ())

theorem RoutesRight.isSdPath_iff_namesSd
    {pathname : JavaString}
    (right : RoutesRight pathname)
    (stack : CString) :
    isSdPath (kniStringToPath stack (normalize pathname)) = true ↔
      NamesSd (normalize pathname) := by
  obtain ⟨given, routed⟩ := right Unit Unit Bool (named false) (named true) ⟨(), ()⟩ .exists stack
  have answer := congrArg Prod.fst routed
  rw [native_eq, PicoJvm.Files.routed, apply_ite Prod.fst, apply_ite Prod.fst] at answer
  simp only [onSdCard, onLittleFs, named] at answer
  constructor
  · intro isSd
    by_contra notSd
    rw [if_pos isSd, if_neg notSd] at answer
    cases answer
  · intro namesSd
    by_contra notSd
    rw [if_neg notSd, if_pos namesSd] at answer
    cases answer

theorem RoutesRight.routable
    {pathname : JavaString}
    (right : RoutesRight pathname) :
    Routable pathname := by
  have fits : (normalize pathname).length < maxPathLen := by
    by_contra tooLong
    have asStack : ∀ stack, kniStringToPath stack (normalize pathname) = stack := by
      intro stack
      rw [kniStringToPath, if_pos (Nat.le_of_not_lt tooLong)]
    have ifSd := right.isSdPath_iff_namesSd sdPrefix
    have ifEmpty := right.isSdPath_iff_namesSd []
    rw [asStack] at ifSd ifEmpty
    exact absurd (ifEmpty.mpr (ifSd.mp (by decide))) (by decide)
  have test := right.isSdPath_iff_namesSd []
  rw [isSdPath_iff fits] at test
  refine ⟨fits, ?_, ?_⟩
  · intro root
    rw [root] at test
    exact absurd (test.mpr (by decide)) (by decide)
  · intro looks
    rcases test.mp looks with root | below
    · rw [root] at looks
      exact absurd looks (by decide)
    · exact below

/-- A rename across the file systems is one of LittleFS. -/
theorem fileRename_across
    {lfs sd answer : Type}
    (littleFs : FileSystem lfs answer) (sdCard : FileSystem sd answer)
    (contents : Contents lfs sd)
    {oldName newName : JavaString}
    (oldRoutable : Routable oldName)
    (newRoutable : Routable newName)
    (across : ¬ (NamesSd (normalize oldName) ↔ NamesSd (normalize newName)))
    (stack stack' : CString) :
    fileRename littleFs sdCard (kniStringToPath stack (normalize oldName))
        (kniStringToPath stack' (normalize newName)) contents =
      ((littleFs.rename (nativePath oldName) (nativePath newName) contents.littleFs).1,
        { contents with
          littleFs :=
            (littleFs.rename (nativePath oldName) (nativePath newName) contents.littleFs).2 }) := by
  have notBoth : ¬ (isSdPath (kniStringToPath stack (normalize oldName)) &&
      isSdPath (kniStringToPath stack' (normalize newName))) = true := by
    rw [Bool.and_eq_true, oldRoutable.isSdPath_iff_namesSd, newRoutable.isSdPath_iff_namesSd]
    rintro ⟨oldSd, newSd⟩
    exact across ⟨fun _ => newSd, fun _ => oldSd⟩
  rw [fileRename, if_neg notBoth, kniStringToPath_of_fits oldRoutable.fits,
    kniStringToPath_of_fits newRoutable.fits]
  rfl

theorem fileRename_together
    {lfs sd answer : Type}
    (littleFs : FileSystem lfs answer) (sdCard : FileSystem sd answer)
    (contents : Contents lfs sd)
    {oldName newName : JavaString}
    (oldRoutable : Routable oldName)
    (newRoutable : Routable newName)
    (together : NamesSd (normalize oldName) ↔ NamesSd (normalize newName))
    (stack stack' : CString) :
    ∃ given given',
      fileRename littleFs sdCard (kniStringToPath stack (normalize oldName))
          (kniStringToPath stack' (normalize newName)) contents =
        if NamesSd (normalize oldName) then
          ((sdCard.rename given given' contents.sdCard).1,
            { contents with sdCard := (sdCard.rename given given' contents.sdCard).2 })
        else
          ((littleFs.rename given given' contents.littleFs).1,
            { contents with littleFs := (littleFs.rename given given' contents.littleFs).2 }) := by
  have oldTest := oldRoutable.isSdPath_iff_namesSd stack
  have newTest := newRoutable.isSdPath_iff_namesSd stack'
  by_cases onSd : NamesSd (normalize oldName)
  · refine ⟨sdRelPath (kniStringToPath stack (normalize oldName)),
      sdRelPath (kniStringToPath stack' (normalize newName)), ?_⟩
    have both : (isSdPath (kniStringToPath stack (normalize oldName)) &&
        isSdPath (kniStringToPath stack' (normalize newName))) = true := by
      rw [Bool.and_eq_true]
      exact ⟨oldTest.mpr onSd, newTest.mpr (together.mp onSd)⟩
    rw [if_pos onSd, fileRename, if_pos both]
  · refine ⟨kniStringToPath stack (normalize oldName),
      kniStringToPath stack' (normalize newName), ?_⟩
    have notBoth : ¬ (isSdPath (kniStringToPath stack (normalize oldName)) &&
        isSdPath (kniStringToPath stack' (normalize newName))) = true := by
      rw [Bool.and_eq_true]
      exact fun both => onSd (oldTest.mp both.1)
    rw [if_neg onSd, fileRename, if_neg notBoth]

/-- The pathname `/sd/`, which is normalised to the root of the SD card. -/
def sdRoot : JavaString := [47, 115, 100, 47]

end PicoJvm.Files
