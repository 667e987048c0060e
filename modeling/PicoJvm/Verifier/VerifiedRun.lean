import PicoJvm.Bytecode.CodeWalk
import PicoJvm.Verifier.ReachedFrames

/-!
# The course of a successful verification

A verification that succeeds has come to every instruction of the code in turn, up to the very
end of the code, and has met every stack map at one of them.
-/

namespace PicoJvm.Verifier

open PicoJvm.Lib
open PicoJvm.Lib.Fallible
open PicoJvm.CodeBytes
open PicoJvm.CheckBytecodes (getInstructionStarts lengthForAt)
open PicoJvm.CodeWalk (nextBci)

/-- The step from one instruction of the code to the next. -/
def Steps (code : Code) (here next : Nat) : Prop :=
  nextBci code here = .ok next

theorem steps_deterministic (code : Code) : Deterministic (Steps code) := by
  intro here next next' step step'
  have equal := step.symm.trans step'
  cases equal
  rfl

/-- The verification has come to the instruction at `bci` and accepted it, starting from
`entered` once the stack map there was taken in. -/
def PassedAt (method : Method) (world : ClassWorld) (bci : Nat) (entered : VerifyState) : Prop :=
  (∃ state, Arrives method world bci state ∧
    bytecodeProlog ⟨method, world, bci⟩ state = .ok entered) ∧
  ∃ frame, verifyInstruction ⟨method, world, bci⟩ (decode method.code method.constants bci)
    entered.frame = .ok frame

variable {method : Method} {world : ClassWorld} {context : Context} {frame frame' : Frame}

/-! ## Stack maps are met in turn -/

theorem meetStackmap_mem
    {bci : Nat} {maps remaining : List StackMap}
    (met : meetStackmap bci maps = .ok remaining)
    {map : StackMap}
    (member : map ∈ maps) :
    map ∈ remaining ∨ map.bci = bci := by
  cases maps with
  | nil =>
      cases member
  | cons first rest =>
      rw [meetStackmap] at met
      split at met
      · rename_i here
        cases met
        rcases List.mem_cons.mp member with rfl | later
        · exact Or.inr here
        · exact Or.inl later
      · obtain ⟨_, ok⟩ := guarded_eq_ok_iff.mp met
        cases ok
        exact Or.inl member

/-- A stack map that is still to come before an instruction is met there or is still to come. -/
theorem bytecodeProlog_remaining
    {state entered : VerifyState}
    (prolog : bytecodeProlog context state = .ok entered)
    {map : StackMap}
    (member : map ∈ state.remaining) :
    map ∈ entered.remaining ∨ map.bci = context.bci := by
  obtain ⟨remaining, met, prolog⟩ := bind_eq_ok_iff.mp prolog
  obtain ⟨frame, _, prolog⟩ := bind_eq_ok_iff.mp prolog
  obtain ⟨⟨⟩, _, ok⟩ := bind_eq_ok_iff.mp prolog
  cases ok
  exact meetStackmap_mem met member

/-! ## The iteration -/

/-- What `iterate` has gone through when it succeeds, from any instruction it arrived at. -/
theorem iterate_course
    (fuel : Nat) {bci : Nat} {state final : VerifyState}
    (arrives : Arrives method world bci state)
    (run : iterate method world fuel bci state = .ok final) :
    ∃ starts, Trail (Steps method.code) bci starts method.code.length ∧
      (∀ start ∈ starts, start < method.code.length ∧
        ∃ entered, PassedAt method world start entered) ∧
      ∀ map ∈ state.remaining, map ∈ final.remaining ∨ map.bci ∈ starts := by
  induction fuel generalizing bci state with
  | zero =>
      unfold iterate at run
      split at run
      · cases run
      · rename_i past
        obtain ⟨notPast, ok⟩ := guarded_eq_ok_iff.mp run
        cases ok
        have atEnd : bci = method.code.length := by omega
        exact ⟨[], atEnd ▸ .nil _, by simp, fun map member => Or.inl member⟩
  | succ fuel inductionHypothesis =>
      unfold iterate at run
      split at run
      · rename_i inside
        obtain ⟨entered, prolog, run⟩ := bind_eq_ok_iff.mp run
        obtain ⟨frame, verified, run⟩ := bind_eq_ok_iff.mp run
        split at run
        · rename_i length ofLength
          obtain ⟨positive, run⟩ := guarded_eq_ok_iff.mp run
          have onward := arrives.next inside prolog verified ofLength (by omega)
          obtain ⟨starts, trail, passed, met⟩ := inductionHypothesis onward run
          have step : Steps method.code bci (bci + length.toNat) := by
            unfold Steps nextBci
            rw [ofLength, ok_bind, pure_eq_ok]
            congr 1
            omega
          refine ⟨bci :: starts, .cons step trail, ?_, ?_⟩
          · intro start member
            rcases List.mem_cons.mp member with rfl | later
            · exact ⟨inside, entered, ⟨state, arrives, prolog⟩, frame, verified⟩
            · exact passed start later
          · intro map member
            rcases bytecodeProlog_remaining prolog member with ahead | here
            · rcases met map ahead with left | there
              · exact Or.inl left
              · exact Or.inr (List.mem_cons_of_mem bci there)
            · exact Or.inr (here ▸ List.mem_cons_self)
        · cases run
      · rename_i past
        obtain ⟨notPast, ok⟩ := guarded_eq_ok_iff.mp run
        cases ok
        have atEnd : bci = method.code.length := by omega
        exact ⟨[], atEnd ▸ .nil _, by simp, fun map member => Or.inl member⟩

/-- A verified method: every instruction was accepted, and every stack map belongs to one. -/
theorem verify_course
    (verified : verify method world = .ok ()) :
    ∃ starts, Trail (Steps method.code) 0 starts method.code.length ∧
      (∀ start ∈ starts, start < method.code.length ∧
        ∃ entered, PassedAt method world start entered) ∧
      ∀ map ∈ method.stackmaps, map.bci ∈ starts := by
  obtain ⟨_, verified⟩ := guarded_eq_ok_iff.mp verified
  split at verified
  · cases verified
  · obtain ⟨⟨⟩, _, verified⟩ := bind_eq_ok_iff.mp verified
    obtain ⟨⟨⟩, _, verified⟩ := bind_eq_ok_iff.mp verified
    obtain ⟨frame, initialized, verified⟩ := bind_eq_ok_iff.mp verified
    obtain ⟨final, run, verified⟩ := bind_eq_ok_iff.mp verified
    obtain ⟨allMet, _⟩ := guarded_eq_ok_iff.mp verified
    obtain ⟨starts, trail, passed, met⟩ := iterate_course _ (.start initialized) run
    refine ⟨starts, trail, passed, ?_⟩
    intro map member
    rcases met map member with left | there
    · rw [not_not.mp allMet] at left
      cases left
    · exact there

/-! ## Targets -/

/-- The stack map at a target accepts the frame. -/
def MatchesAt (context : Context) (frame : Frame) (target : Int) : Prop :=
  ∃ map, stackmapAt context.method target = some map ∧
    frame.matchStackMap context.world context.method.isObjectInitializer ⟨true, false, true⟩
      .targetBadType map = .ok frame

theorem checkTarget_matches
    {target : Int}
    (checked : checkTarget context target frame = .ok frame') :
    MatchesAt context frame target := by
  have same := checkTarget_eq checked
  unfold checkTarget checkStackmapMatch at checked
  split at checked
  · cases checked
  · rename_i map found
    exact ⟨map, found, same ▸ checked⟩

theorem checkTargets_matches
    {targets : List Int}
    (checked : checkTargets context targets frame = .ok frame') :
    ∀ target ∈ targets, MatchesAt context frame target := by
  induction targets generalizing frame with
  | nil =>
      simp
  | cons target rest inductionHypothesis =>
      obtain ⟨middle, first, later⟩ := bind_eq_ok_iff.mp checked
      have same := checkTarget_eq first
      intro other member
      rcases List.mem_cons.mp member with rfl | inRest
      · exact checkTarget_matches first
      · exact same ▸ inductionHypothesis later other inRest

/-- The keys of a `lookupswitch` were found in increasing order, and every destination matches. -/
theorem checkLookup_matches
    {last : Option Int} {pairs : List (Int × Int)}
    (checked : checkLookup context last pairs frame = .ok frame') :
    (∀ key ∈ last, ∀ pair ∈ pairs, key < pair.1) ∧ pairs.Pairwise (·.1 < ·.1) ∧
      ∀ pair ∈ pairs, MatchesAt context frame pair.2 := by
  induction pairs generalizing last frame with
  | nil =>
      simp
  | cons pair rest inductionHypothesis =>
      obtain ⟨increasing, checked⟩ := guarded_eq_ok_iff.mp checked
      obtain ⟨middle, first, later⟩ := bind_eq_ok_iff.mp checked
      have same := checkTarget_eq first
      obtain ⟨above, ordered, others⟩ := inductionHypothesis later
      have aboveFirst : ∀ other ∈ rest, pair.1 < other.1 := above pair.1 rfl
      have first' := checkTarget_matches first
      refine ⟨?_, List.pairwise_cons.mpr ⟨aboveFirst, ordered⟩, ?_⟩
      · intro key isLast other member
        cases isLast
        have below : key < pair.1 := by simpa using increasing
        rcases List.mem_cons.mp member with rfl | inRest
        · exact below
        · exact below.trans (aboveFirst other inRest)
      · intro other member
        rcases List.mem_cons.mp member with rfl | inRest
        · exact first'
        · exact same ▸ others other inRest

/-- A target with a stack map is where one of the instructions starts. -/
theorem MatchesAt.exists_start
    {target : Int} {starts : List Nat}
    (mapsMet : ∀ map ∈ context.method.stackmaps, map.bci ∈ starts)
    (isMatch : MatchesAt context frame target) :
    ∃ start ∈ starts, target = start := by
  obtain ⟨map, found, _⟩ := isMatch
  have atTarget := List.find?_some found
  exact ⟨map.bci, mapsMet map (List.mem_of_find?_eq_some found), (of_decide_eq_true atTarget).symm⟩

end PicoJvm.Verifier
