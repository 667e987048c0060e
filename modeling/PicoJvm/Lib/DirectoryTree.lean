import Mathlib.Data.List.Infix
import Mathlib.Logic.Function.Basic

/-!
# Trees of directories

A tree says what is found at the end of a path. A path lists its names, the innermost one first,
so that its suffixes are its ancestors.
-/

namespace PicoJvm.Lib

universe u

inductive Kind
  | file
  | directory
  deriving DecidableEq, Repr

/-- What is not the root is in a directory. -/
structure DirectoryTree (name : Type u) where
  kind : List name → Option Kind
  root : kind [] = some .directory
  closed : ∀ ⦃last : name⦄ ⦃rest : List name⦄,
    kind (last :: rest) ≠ none → kind rest = some .directory

namespace DirectoryTree

variable {name : Type u}

/-- The way to something leads through directories. -/
theorem directory_of_suffix
    (tree : DirectoryTree name)
    {path ancestor : List name}
    (found : tree.kind path ≠ none)
    (onPath : ancestor <:+ path) :
    ancestor = path ∨ tree.kind ancestor = some .directory := by
  induction path with
  | nil =>
      exact .inl (List.suffix_nil.mp onPath)
  | cons last rest inductionHypothesis =>
      have isDirectory := tree.closed found
      rcases List.suffix_cons_iff.mp onPath with same | above
      · exact .inl same
      · right
        have someRest : tree.kind rest ≠ none := by
          rw [isDirectory]
          exact Option.some_ne_none _
        rcases inductionHypothesis someRest above with same | directory
        · rw [same]
          exact isDirectory
        · exact directory

/-- Where a directory is, all the way is directories. -/
theorem directories_of_directory
    (tree : DirectoryTree name)
    {path : List name}
    (isDirectory : tree.kind path = some .directory) :
    ∀ ancestor, ancestor <:+ path → tree.kind ancestor = some .directory := by
  intro ancestor onPath
  have found : tree.kind path ≠ none := by
    rw [isDirectory]
    exact Option.some_ne_none _
  rcases tree.directory_of_suffix found onPath with same | directory
  · rw [same]
    exact isDirectory
  · exact directory

section Making

variable [DecidableEq name]

/-- One tree is another with a directory where there was nothing. -/
structure Makes (before : DirectoryTree name) (path : List name) (after : DirectoryTree name) :
    Prop where
  missing : before.kind path = none
  kind : after.kind = Function.update before.kind path (some .directory)

variable {before after : DirectoryTree name} {path : List name}

theorem Makes.made (makes : Makes before path after) : after.kind path = some .directory := by
  rw [makes.kind, Function.update_self]

theorem Makes.elsewhere
    (makes : Makes before path after)
    {other : List name}
    (notHere : other ≠ path) :
    after.kind other = before.kind other := by
  rw [makes.kind, Function.update_of_ne notHere]

/-- A directory in a directory. -/
def makeDirectory (tree : DirectoryTree name) (last : name) (rest : List name)
    (inside : tree.kind rest = some .directory) : DirectoryTree name where
  kind := Function.update tree.kind (last :: rest) (some .directory)
  root := by
    rw [Function.update_of_ne (List.cons_ne_nil last rest).symm]
    exact tree.root
  closed := by
    intro last' rest' found
    by_cases here : rest' = last :: rest
    · rw [here, Function.update_self]
    · rw [Function.update_of_ne here]
      by_cases same : last' :: rest' = last :: rest
      · rw [(List.cons.inj same).2]
        exact inside
      · rw [Function.update_of_ne same] at found
        exact tree.closed found

end Making

theorem ext_kind
    {tree tree' : DirectoryTree name}
    (same : tree.kind = tree'.kind) :
    tree = tree' := by
  cases tree
  cases tree'
  cases same
  rfl

/-! ## Directories along a path -/

/-- Nothing has changed but that there are directories along the path where nothing was. -/
structure MadeAlong (path : List name) (before after : DirectoryTree name) : Prop where
  elsewhere : ∀ other, ¬ other <:+ path → after.kind other = before.kind other
  along : ∀ ancestor, ancestor <:+ path → after.kind ancestor = before.kind ancestor ∨
    before.kind ancestor = none ∧ after.kind ancestor = some .directory

variable {before after : DirectoryTree name} {path : List name}

theorem MadeAlong.refl (path : List name) (tree : DirectoryTree name) :
    MadeAlong path tree tree where
  elsewhere := by
    intro _ _
    rfl
  along := by
    intro _ _
    exact .inl rfl

theorem MadeAlong.cons
    {rest : List name}
    (madeAlong : MadeAlong rest before after)
    (last : name) :
    MadeAlong (last :: rest) before after where
  elsewhere := by
    intro other notOnPath
    apply madeAlong.elsewhere
    intro above
    exact notOnPath (above.trans (List.suffix_cons last rest))
  along := by
    intro ancestor _
    by_cases above : ancestor <:+ rest
    · exact madeAlong.along ancestor above
    · exact .inl (madeAlong.elsewhere ancestor above)

theorem MadeAlong.at_end
    {rest : List name}
    (madeAlong : MadeAlong rest before after)
    (last : name) :
    after.kind (last :: rest) = before.kind (last :: rest) := by
  apply madeAlong.elsewhere
  intro above
  have shorter := above.length_le
  rw [List.length_cons] at shorter
  omega

/-- Where something is, nothing has to be made. -/
theorem MadeAlong.eq_of_found
    (madeAlong : MadeAlong path before after)
    (found : before.kind path ≠ none) :
    after = before := by
  apply ext_kind
  funext ancestor
  by_cases onPath : ancestor <:+ path
  · rcases madeAlong.along ancestor onPath with same | ⟨missing, _⟩
    · exact same
    · rcases before.directory_of_suffix found onPath with same | directory
      · rw [same] at missing
        exact absurd missing found
      · rw [directory] at missing
        cases missing
  · exact madeAlong.elsewhere ancestor onPath

theorem MadeAlong.then_made
    [DecidableEq name]
    {last : DirectoryTree name}
    (madeAlong : MadeAlong path before after)
    (makes : Makes after path last) :
    MadeAlong path before last where
  elsewhere := by
    intro other notOnPath
    have notHere : other ≠ path := by
      intro same
      rw [same] at notOnPath
      exact notOnPath List.suffix_rfl
    rw [makes.elsewhere notHere]
    exact madeAlong.elsewhere other notOnPath
  along := by
    intro ancestor onPath
    by_cases here : ancestor = path
    · right
      rw [here]
      refine ⟨?_, makes.made⟩
      rcases madeAlong.along path List.suffix_rfl with same | ⟨missing, _⟩
      · rw [← same]
        exact makes.missing
      · exact missing
    · rw [makes.elsewhere here]
      exact madeAlong.along ancestor onPath

end DirectoryTree

end PicoJvm.Lib
