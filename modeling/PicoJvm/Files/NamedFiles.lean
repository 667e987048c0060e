import Mathlib.Data.List.TakeWhile
import PicoJvm.Files.PathRouting

/-!
# Files by their names

The natives of `java.io.File` and of the streams convert a name to a string of C and go on
whatever comes of it. A name spells a path when each of its characters is a byte.
-/

namespace PicoJvm.Files

/-! ## Names that spell a path -/

/-- The name fits into the buffer, and its characters are bytes other than the one that ends a
string of C. -/
structure Convertible (name : JavaString) : Prop where
  fits : name.length < maxPathLen
  bytes : ∀ char ∈ name, char ≠ 0 ∧ char < 256

/-- The path that a name spells. -/
def spelledPath (name : JavaString) : CString :=
  name.map UInt16.toUInt8

/-- The operation acts on the path that the name spells or fails and touches nothing; it always
fails for a name that spells none. Neither depends on what the file systems do, on what a
failure looks like or on what is on the stack. -/
def ActsOnNamed (name : JavaString) : Prop :=
  ∀ (lfs sd answer : Type) (littleFs : FileSystem lfs answer) (sdCard : FileSystem sd answer)
    (failure : FileOperation → answer) (contents : Contents lfs sd) (operation : FileOperation)
    (stack : CString),
    let outcome := native littleFs sdCard operation (kniStringToPath stack name) contents
    (Convertible name →
      outcome = native littleFs sdCard operation (spelledPath name) contents ∨
        outcome = (failure operation, contents)) ∧
      (¬ Convertible name → outcome = (failure operation, contents))

/-- So does renaming. -/
def RenamesNamed (oldName newName : JavaString) : Prop :=
  ∀ (lfs sd answer : Type) (littleFs : FileSystem lfs answer) (sdCard : FileSystem sd answer)
    (contents : Contents lfs sd) (stack stack' : CString),
    let outcome := fileRename littleFs sdCard (kniStringToPath stack oldName)
      (kniStringToPath stack' newName) contents
    (Convertible oldName ∧ Convertible newName →
      outcome = fileRename littleFs sdCard (spelledPath oldName) (spelledPath newName) contents ∨
        outcome = (false, contents)) ∧
      (¬ (Convertible oldName ∧ Convertible newName) → outcome = (false, contents))

/-- What the natives promise about two names. -/
structure NamesAreKept (name other : JavaString) : Prop where
  acts : ActsOnNamed name
  actsOnOther : ActsOnNamed other
  renames : RenamesNamed name other
  distinct : ∀ stack stack', kniStringToPath stack name = kniStringToPath stack' other →
    name = other

/-! ## Conversion -/

theorem toUInt8_ne_zero
    {char : UInt16}
    (isByte : char ≠ 0 ∧ char < 256) :
    char.toUInt8 ≠ 0 := by
  obtain ⟨notNul, below⟩ := isByte
  intro zero
  apply notNul
  have value := congrArg UInt8.toNat zero
  rw [UInt16.toNat_toUInt8] at value
  have small : char.toNat < 256 := below
  apply UInt16.toNat_inj.mp
  rw [Nat.mod_eq_of_lt small] at value
  exact value

theorem Convertible.path
    {name : JavaString}
    (convertible : Convertible name)
    (stack : CString) :
    kniStringToPath stack name = spelledPath name := by
  have fits := convertible.fits
  rw [kniStringToPath, if_neg (by omega), spelledPath]
  apply List.takeWhile_eq_self_iff.mpr
  intro byte member
  obtain ⟨char, isIn, rfl⟩ := List.mem_map.mp member
  simpa using toUInt8_ne_zero (convertible.bytes char isIn)

theorem Convertible.spelledPath_inj
    {name other : JavaString}
    (convertible : Convertible name)
    (otherConvertible : Convertible other)
    (same : spelledPath name = spelledPath other) :
    name = other := by
  have back : ∀ string : JavaString, Convertible string →
      (spelledPath string).map UInt8.toUInt16 = string := by
    intro string isConvertible
    rw [spelledPath, List.map_map]
    conv_rhs => rw [← List.map_id string]
    apply List.map_congr_left
    intro char isIn
    have small : char.toNat < 256 := (isConvertible.bytes char isIn).2
    apply UInt16.toNat_inj.mp
    simp only [Function.comp_apply, UInt8.toNat_toUInt16, UInt16.toNat_toUInt8, id_eq]
    exact Nat.mod_eq_of_lt small
  rw [← back name convertible, ← back other otherConvertible, same]

/-! ## What the natives do -/

/-- A file system that counts what it is asked. -/
def counting : FileSystem Nat Unit where
  perform _ _ asked := ((), asked + 1)
  rename _ _ asked := (true, asked + 1)

/-- No native leaves both file systems alone. -/
theorem native_asks (operation : FileOperation) (path : CString) :
    native counting counting operation path ⟨0, 0⟩ ≠ ((), ⟨0, 0⟩) := by
  rw [native_eq, routed]
  split
  · intro same
    simp [onSdCard, counting] at same
  · intro same
    simp [onLittleFs, counting] at same

theorem ActsOnNamed.convertible
    {name : JavaString}
    (acts : ActsOnNamed name) :
    Convertible name := by
  by_contra notConvertible
  have failed := (acts Nat Nat Unit counting counting (fun _ => ()) ⟨0, 0⟩ .exists []).2
    notConvertible
  exact native_asks _ _ failed

theorem Convertible.acts
    {name : JavaString}
    (convertible : Convertible name) :
    ActsOnNamed name := by
  intro lfs sd answer littleFs sdCard failure contents operation stack
  dsimp only
  rw [convertible.path]
  exact ⟨fun _ => .inl rfl, fun notConvertible => absurd convertible notConvertible⟩

theorem Convertible.renames
    {name other : JavaString}
    (convertible : Convertible name)
    (otherConvertible : Convertible other) :
    RenamesNamed name other := by
  intro lfs sd answer littleFs sdCard contents stack stack'
  dsimp only
  rw [convertible.path, otherConvertible.path]
  exact ⟨fun _ => .inl rfl,
    fun notBoth => absurd ⟨convertible, otherConvertible⟩ notBoth⟩

/-- The natives act on the named files or on none, if and only if the names spell paths. -/
theorem names_are_kept_iff (name other : JavaString) :
    NamesAreKept name other ↔ Convertible name ∧ Convertible other := by
  constructor
  · intro kept
    exact ⟨kept.acts.convertible, kept.actsOnOther.convertible⟩
  · rintro ⟨convertible, otherConvertible⟩
    refine ⟨convertible.acts, otherConvertible.acts, convertible.renames otherConvertible, ?_⟩
    intro stack stack' same
    rw [convertible.path, otherConvertible.path] at same
    exact convertible.spelledPath_inj otherConvertible same

/-- The name `š`, whose low byte is that of `a`. -/
def sCaron : JavaString := [0x0161]

/-- Deleting `š` deletes `a`, and a name that is too long deletes what is on the stack. -/
theorem other_files_deleted :
    ¬ NamesAreKept sCaron [97] ∧
      (∀ (lfs sd answer : Type) (littleFs : FileSystem lfs answer) (sdCard : FileSystem sd answer)
        (contents : Contents lfs sd),
        native littleFs sdCard .delete (kniStringToPath [] sCaron) contents =
            onLittleFs littleFs .delete [97] contents ∧
          native littleFs sdCard .delete
              (kniStringToPath [98] (List.replicate 256 97)) contents =
            onLittleFs littleFs .delete [98] contents) := by
  constructor
  · intro kept
    exact absurd (kept.acts.convertible.bytes 0x0161 (by decide)).2 (by decide)
  · intro lfs sd answer littleFs sdCard contents
    have long : (List.replicate 256 (97 : UInt16)).length ≥ maxPathLen :=
      Nat.le_of_eq List.length_replicate.symm
    have tooLong : kniStringToPath [98] (List.replicate 256 97) = [98] := by
      rw [kniStringToPath, if_pos long]
    rw [tooLong]
    exact ⟨rfl, rfl⟩

end PicoJvm.Files
