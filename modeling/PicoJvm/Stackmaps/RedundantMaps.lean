import PicoJvm.Stackmaps.LinearRuns

/-!
# Removing redundant stack maps

A removed map makes `generate_stackmap` begin earlier. From there it carries on the first words of
`long`s and `double`s that the map did not tell, and `store_local` looks at these.
-/

namespace PicoJvm.Stackmaps

open PicoJvm.Verifier (Instruction Kind PrimitiveType Tag)

/-! ## Starts -/

/-- The frame at a bytecode index, interpreted from a start. -/
def interpretFrom (method : Method) (start : Start) (bci : Nat) : Option Frame :=
  interpret method bci (bci - start.bci) start.bci start.frame

/-- The locals that linear code from a start leaves open. -/
def openedFrom (method : Method) (start : Start) (bci : Nat) : Nat → Bool :=
  openedAt method bci (bci - start.bci) start.bci start.frame.opened

/-- The places where `generate_stackmap` may begin. -/
def starts (method : Method) (maps : List Stackmap) : List Start :=
  methodStart method :: maps.map (readMap method)

/-- What the verifier promises of a method and its stack maps. -/
structure Verified (method : Method) (maps : List Stackmap) : Prop where
  parameters : ((methodStart method).frame.locals).length = method.maxLocals
  sorted : maps.Pairwise fun map later => map.bci < later.bci
  inside : ∀ map ∈ maps, map.bci < method.codeSize
  locals : ∀ map ∈ maps, map.locals ≤ method.maxLocals
  /-- No bytecode takes more from the stack than there is, or stores outside the locals. -/
  interprets : ∀ start ∈ starts method maps, ∀ bci < method.codeSize,
    Follows method start.bci bci → ∃ frame, interpretFrom method start bci = some frame
  heights : ∀ start ∈ starts method maps, ∀ map ∈ maps, start.bci ≤ map.bci → ∀ frame,
    interpretFrom method start map.bci = some frame → frame.stack.length = map.stackHeight

/-! ## Lists of maps -/

/-- A map says nothing new after a start. -/
def redundantAfter (method : Method) (start : Start) (map : Stackmap) : Bool :=
  decide (method.maxExecutionStackCount ≤ 1000) &&
    decide ((interpretFrom method start map.bci).map Frame.marks =
      some (readMap method map).frame.marks)

/-- The maps that stay, after a start. -/
def removeAfter (method : Method) : Start → List Stackmap → List Stackmap
  | _, [] => []
  | start, map :: maps =>
      if redundantAfter method start map then
        removeAfter method (readMap method map) maps
      else
        map :: removeAfter method (readMap method map) maps

/-- The start for a bytecode index behind a start. -/
def startAfter (method : Method) (bci : Nat) : Start → List Stackmap → Start
  | start, [] => start
  | start, map :: maps =>
      if bci < map.bci then start else startAfter method bci (readMap method map) maps

def marksAfter (method : Method) (start : Start) (maps : List Stackmap) (bci : Nat) :
    Option (List Bool) :=
  (interpretFrom method (startAfter method bci start maps) bci).map Frame.marks

/-! ## When the marks stay the same -/

/-- A bytecode index of the code up to the next map, or at it if it is removed. -/
def Within (method : Method) (limit : Option (Nat × Bool)) (bci : Nat) : Prop :=
  bci < method.codeSize ∧
    match limit with
    | none => True
    | some (next, removed) => bci < next ∨ bci = next ∧ removed = true

/-- Wherever linear code behind the last map stores a reference, the local before is open from
the last map on exactly if it is open from the kept map on. -/
def StoresAgree (method : Method) (kept last : Start) (limit : Option (Nat × Bool)) : Prop :=
  ∀ bci index, Follows method last.bci bci → storesBehind (method.operationAt bci) index →
    Within method limit (method.nextBci bci) →
    openedFrom method last bci index = openedFrom method kept bci index

/-- The same behind all the maps of a list. -/
def AllStoresAgree (method : Method) : Start → Start → List Stackmap → Prop
  | kept, last, [] => StoresAgree method kept last none
  | kept, last, map :: maps =>
      StoresAgree method kept last (some (map.bci, redundantAfter method last map)) ∧
        AllStoresAgree method
          (if redundantAfter method last map then kept else readMap method map)
          (readMap method map) maps

section Lists

variable {method : Method} {start : Start} {maps : List Stackmap} {bci : Nat}

theorem startAfter_of_lt
    (before : ∀ map ∈ maps, bci < map.bci) :
    startAfter method bci start maps = start := by
  cases maps with
  | nil => rfl
  | cons map maps =>
      unfold startAfter
      rw [if_pos (before map List.mem_cons_self)]

theorem removeAfter_sublist :
    (removeAfter method start maps).Sublist maps := by
  induction maps generalizing start with
  | nil => exact List.Sublist.refl _
  | cons map maps induction =>
      unfold removeAfter
      split
      · exact induction.cons map
      · exact induction.cons_cons map

end Lists

/-! ## The list as the source goes through it -/

/-- The start behind the maps of a list. -/
def lastStart (method : Method) (front : List Stackmap) : Start :=
  match front.getLast? with
  | none => methodStart method
  | some map => readMap method map

section Source

variable {method : Method} {front back : List Stackmap} {bci : Nat}

/-- A sorted list is cut where the maps behind a bytecode index begin. -/
theorem exists_cut
    {maps : List Stackmap}
    (sorted : maps.Pairwise fun map later => map.bci < later.bci)
    (bci : Nat) :
    ∃ front back, maps = front ++ back ∧ (∀ map ∈ front, map.bci ≤ bci) ∧
      ∀ map ∈ back, bci < map.bci := by
  induction maps with
  | nil => exact ⟨[], [], rfl, by simp, by simp⟩
  | cons map maps induction =>
      obtain ⟨below, sorted⟩ := List.pairwise_cons.mp sorted
      by_cases earlier : map.bci ≤ bci
      · obtain ⟨front, back, rfl, frontBelow, backAbove⟩ := induction sorted
        exact ⟨map :: front, back, rfl, List.forall_mem_cons.mpr ⟨earlier, frontBelow⟩, backAbove⟩
      · have above : bci < map.bci := Nat.lt_of_not_le earlier
        exact ⟨[], map :: maps, rfl, by simp,
          List.forall_mem_cons.mpr ⟨above, fun later member => above.trans (below later member)⟩⟩

theorem startAfter_append
    (earlier : ∀ map ∈ front, map.bci ≤ bci)
    (later : ∀ map ∈ back, bci < map.bci) :
    startAfter method bci (methodStart method) (front ++ back) = lastStart method front := by
  have general : ∀ start, startAfter method bci start (front ++ back) =
      (front.getLast?.map (readMap method)).getD start := by
    induction front with
    | nil =>
        intro start
        exact startAfter_of_lt later
    | cons map front induction =>
        intro start
        rw [List.cons_append, startAfter, if_neg (Nat.not_lt.mpr (earlier map List.mem_cons_self)),
          induction (fun other member => earlier other (List.mem_cons_of_mem _ member)),
          List.getLast?_cons]
        cases front.getLast? <;> rfl
  rw [general]
  unfold lastStart
  cases front.getLast? <;> rfl

theorem findCompressedStackmap_append
    (earlier : ∀ map ∈ front, map.bci ≤ bci)
    (later : ∀ map ∈ back, bci < map.bci) :
    findCompressedStackmap (front ++ back) bci =
      if front = [] then none else some (front.length - 1) := by
  have skipped : front.findIdx? (fun map => decide (bci < map.bci)) = none := by
    rw [List.findIdx?_eq_none_iff]
    intro map member
    exact decide_eq_false (Nat.not_lt.mpr (earlier map member))
  unfold findCompressedStackmap
  cases back with
  | nil =>
      rw [List.append_nil]
      cases last : front.getLast? with
      | none => simp [List.getLast?_eq_none_iff.mp last]
      | some map =>
          have member := List.mem_of_getLast? last
          have some' : front ≠ [] := List.ne_nil_of_mem member
          dsimp only
          rw [if_pos (earlier map member), if_neg some']
  | cons next back =>
      have last : (front ++ next :: back).getLast? = (next :: back).getLast? := by
        simp [List.getLast?_cons]
      rw [last]
      cases found : (next :: back).getLast? with
      | none => cases List.getLast?_eq_none_iff.mp found
      | some map =>
          have above := later map (List.mem_of_getLast? found)
          dsimp only
          rw [if_neg (Nat.not_le.mpr above), List.findIdx?_append, skipped, List.findIdx?_cons,
            decide_eq_true (later next List.mem_cons_self)]
          cases front <;> simp

theorem getElem?_last (some' : front ≠ []) :
    (front ++ back)[front.length - 1]? = front.getLast? := by
  have below : front.length - 1 < front.length :=
    Nat.sub_lt (List.length_pos_iff.mpr some') Nat.one_pos
  rw [List.getElem?_append_left below, List.getLast?_eq_getElem?]

theorem startFor_append
    (earlier : ∀ map ∈ front, map.bci ≤ bci)
    (later : ∀ map ∈ back, bci < map.bci) :
    startFor method (front ++ back) false bci = lastStart method front := by
  unfold startFor lastStart
  rw [findCompressedStackmap_append earlier later]
  by_cases none' : front = []
  · subst none'
    rfl
  · rw [if_neg none']
    dsimp only [Bool.false_eq_true, if_false, Option.bind]
    rw [if_neg Bool.false_ne_true]
    dsimp only
    cases last : front.getLast? <;> simp only [getElem?_last none', last]

/-- The checker begins behind the maps before the one it looks at. -/
theorem startFor_checking
    {map : Stackmap}
    (earlier : ∀ other ∈ front, other.bci < map.bci)
    (later : ∀ other ∈ back, map.bci < other.bci) :
    startFor method (front ++ map :: back) true map.bci = lastStart method front := by
  have split : front ++ map :: back = (front ++ [map]) ++ back := by simp
  have found : findCompressedStackmap (front ++ map :: back) map.bci = some front.length := by
    rw [split, findCompressedStackmap_append _ later]
    · simp
    · intro other member
      rcases List.mem_append.mp member with before | here
      · exact (earlier other before).le
      · rw [List.mem_singleton.mp here]
  unfold startFor lastStart
  rw [found]
  cases length : front.length with
  | zero =>
      cases List.length_eq_zero_iff.mp length
      rfl
  | succ index =>
      have some' : front ≠ [] := by
        rintro rfl
        cases length
      have place : index = front.length - 1 := by omega
      dsimp only
      rw [if_pos rfl]
      dsimp only [Option.bind]
      cases last : front.getLast? <;> simp only [place, getElem?_last some', last]

end Source

section Verified

variable {method : Method} {maps front back : List Stackmap} {bci : Nat}

theorem lastStart_mem (maps : List Stackmap) (split : maps = front ++ back) :
    lastStart method front ∈ starts method maps := by
  unfold lastStart starts
  cases last : front.getLast? with
  | none => exact List.mem_cons_self
  | some map =>
      have member : map ∈ maps := split ▸ List.mem_append_left _ (List.mem_of_getLast? last)
      exact List.mem_cons_of_mem _ (List.mem_map_of_mem member)

theorem lastStart_le (earlier : ∀ map ∈ front, map.bci ≤ bci) :
    (lastStart method front).bci ≤ bci := by
  unfold lastStart
  cases last : front.getLast? with
  | none => exact Nat.zero_le _
  | some map => exact earlier map (List.mem_of_getLast? last)

theorem interpretFrom_eq_some_iff
    {start : Start}
    {frame : Frame}
    (below : start.bci ≤ bci) :
    interpretFrom method start bci = some frame ↔
      Runs method start.bci start.frame bci frame :=
  interpret_eq_some_iff below (Nat.le_refl _)

theorem interpretFrom_here (start : Start) :
    interpretFrom method start start.bci = some start.frame :=
  (interpretFrom_eq_some_iff (Nat.le_refl _)).mpr .here

theorem readBitmap_length (bitmap : Bitmap) (offset count : Nat) :
    (readBitmap bitmap offset count).length = count := by
  unfold readBitmap
  rw [List.length_map, List.length_range]

theorem readMap_locals
    {map : Stackmap}
    (fits : map.locals ≤ method.maxLocals) :
    (readMap method map).frame.locals.length = method.maxLocals := by
  change (readBitmap _ _ _ ++ List.replicate _ _).length = _
  rw [List.length_append, readBitmap_length, List.length_replicate]
  omega

theorem readMap_stack (map : Stackmap) :
    (readMap method map).frame.stack.length = map.stackHeight := by
  change (readBitmap _ _ _).reverse.length = _
  rw [List.length_reverse, readBitmap_length]

theorem start_locals
    (verified : Verified method maps)
    {start : Start}
    (member : start ∈ starts method maps) :
    start.frame.locals.length = method.maxLocals := by
  rcases List.mem_cons.mp member with rfl | read
  · exact verified.parameters
  · obtain ⟨map, inside, rfl⟩ := List.mem_map.mp read
    exact readMap_locals (verified.locals map inside)

theorem all_range_eq_iff
    {temp marks : List Bool}
    (length : temp.length = marks.length) :
    ((List.range temp.length).all fun place => decide (temp[place]? = marks[place]?)) = true ↔
      temp = marks := by
  constructor
  · intro same
    apply List.ext_getElem?
    intro place
    by_cases inside : place < temp.length
    · exact of_decide_eq_true (List.all_eq_true.mp same place (List.mem_range.mpr inside))
    · rw [List.getElem?_eq_none (Nat.le_of_not_lt inside),
        List.getElem?_eq_none (length ▸ Nat.le_of_not_lt inside)]
  · rintro rfl
    simp

/-- The checker compares a map with the marks that are carried to it. -/
theorem isRedundant_eq
    {map : Stackmap}
    (verified : Verified method (front ++ map :: back))
    (earlier : ∀ other ∈ front, other.bci < map.bci)
    (later : ∀ other ∈ back, map.bci < other.bci) :
    isRedundant method (front ++ map :: back) front.length =
      redundantAfter method (lastStart method front) map := by
  have here : (front ++ map :: back)[front.length]? = some map := by simp
  have carried : generateStackmap method (front ++ map :: back) true map.bci =
      (interpretFrom method (lastStart method front) map.bci).map Frame.marks := by
    unfold generateStackmap interpretFrom
    rw [startFor_checking earlier later]
  have read : generateStackmap method (front ++ map :: back) false map.bci =
      some (readMap method map).frame.marks := by
    have split : front ++ map :: back = (front ++ [map]) ++ back := by simp
    have below : ∀ other ∈ front ++ [map], other.bci ≤ map.bci := by
      intro other member
      rcases List.mem_append.mp member with before | here
      · exact (earlier other before).le
      · rw [List.mem_singleton.mp here]
    have last : lastStart method (front ++ [map]) = readMap method map := by
      simp [lastStart]
    change (interpretFrom method (startFor method (front ++ map :: back) false map.bci) map.bci).map
      Frame.marks = _
    rw [split, startFor_append below later, last]
    exact congrArg (Option.map _) (interpretFrom_here (readMap method map))
  unfold isRedundant redundantAfter
  by_cases high : 1000 < method.maxExecutionStackCount
  · rw [if_pos high, decide_eq_false (Nat.not_le.mpr high), Bool.false_and]
  · rw [if_neg high, here, decide_eq_true (Nat.le_of_not_lt high), Bool.true_and]
    dsimp only
    rw [carried, read]
    have member := @lastStart_mem method _ _ (front ++ map :: back) rfl
    have below : (lastStart method front).bci ≤ map.bci :=
      lastStart_le fun other before => (earlier other before).le
    cases run : interpretFrom method (lastStart method front) map.bci with
    | none => simp
    | some frame =>
        have mapMember : map ∈ front ++ map :: back := List.mem_append_right _ List.mem_cons_self
        have height := verified.heights _ member map mapMember below frame run
        have locals := ((interpretFrom_eq_some_iff below).mp run).length
        rw [start_locals verified member] at locals
        have length : frame.marks.length = (readMap method map).frame.marks.length := by
          unfold Frame.marks
          rw [List.length_append, List.length_append, List.length_reverse, List.length_reverse,
            List.length_map, List.length_map, List.length_map, List.length_map, locals,
            readMap_locals (verified.locals map mapMember), height, readMap_stack]
        rw [Option.map_some]
        dsimp only
        rw [Bool.eq_iff_iff, all_range_eq_iff length, decide_eq_true_iff, Option.some_inj]

theorem removeRedundantStackmaps_eq
    (verified : Verified method maps) :
    removeRedundantStackmaps method maps = removeAfter method (methodStart method) maps := by
  have general : ∀ rest front : List Stackmap, maps = front ++ rest →
      ((List.range' front.length rest.length).filter fun index =>
        !isRedundant method maps index).filterMap (maps[·]?) =
          removeAfter method (lastStart method front) rest := by
    intro rest
    induction rest with
    | nil =>
        intro front _
        rfl
    | cons map rest induction =>
        intro front split
        have sorted := verified.sorted
        rw [split, List.pairwise_append] at sorted
        obtain ⟨-, sortedRest, between⟩ := sorted
        have earlier : ∀ other ∈ front, other.bci < map.bci :=
          fun other member => between other member map List.mem_cons_self
        have redundant : isRedundant method maps front.length =
            redundantAfter method (lastStart method front) map := by
          rw [split]
          exact isRedundant_eq (split ▸ verified) earlier (List.pairwise_cons.mp sortedRest).1
        have here : maps[front.length]? = some map := by simp [split]
        have next := induction (front ++ [map]) (by simp [split])
        have last : lastStart method (front ++ [map]) = readMap method map := by
          simp [lastStart]
        rw [last, List.length_append, List.length_singleton] at next
        rw [List.length_cons, List.range'_succ, List.filter_cons, redundant]
        unfold removeAfter
        cases redundantAfter method (lastStart method front) map with
        | true => exact next
        | false =>
            rw [Bool.not_false, if_pos rfl, List.filterMap_cons, here]
            exact congrArg (map :: ·) next
  have all := general maps [] rfl
  unfold removeRedundantStackmaps
  rw [List.range_eq_range']
  exact all

/-- `generate_stackmap` for a sorted list of maps. -/
theorem generateStackmap_eq
    (sorted : maps.Pairwise fun map later => map.bci < later.bci)
    (bci : Nat) :
    generateStackmap method maps false bci = marksAfter method (methodStart method) maps bci := by
  obtain ⟨front, back, rfl, earlier, later⟩ := exists_cut sorted bci
  unfold generateStackmap marksAfter interpretFrom
  rw [startFor_append earlier later, startAfter_append earlier later]

end Verified

/-! ## Behind a kept map and a removed one -/

/-- What is known of the maps behind the last one that was looked at. -/
structure Remaining (method : Method) (maps : List Stackmap) (kept last : Start)
    (rest : List Stackmap) : Prop where
  verified : Verified method maps
  keptMember : kept ∈ starts method maps
  lastMember : last ∈ starts method maps
  members : ∀ map ∈ rest, map ∈ maps
  above : ∀ map ∈ rest, last.bci ≤ map.bci
  sorted : rest.Pairwise fun map later => map.bci < later.bci

section Removal

variable {method : Method} {maps rest : List Stackmap} {kept last : Start} {map : Stackmap}
  {bci : Nat}

theorem Remaining.next
    (remaining : Remaining method maps kept last (map :: rest))
    (keptNext : Start)
    (member : keptNext ∈ starts method maps) :
    Remaining method maps keptNext (readMap method map) rest where
  verified := remaining.verified
  keptMember := member
  lastMember := List.mem_cons_of_mem _
    (List.mem_map_of_mem (remaining.members map List.mem_cons_self))
  members other inside := remaining.members other (List.mem_cons_of_mem _ inside)
  above other inside := ((List.pairwise_cons.mp remaining.sorted).1 other inside).le
  sorted := (List.pairwise_cons.mp remaining.sorted).2

theorem marks_of_similar
    (remaining : Remaining method maps kept last rest)
    {frame other : Frame}
    (run : Runs method last.bci last.frame bci frame)
    (run' : Runs method kept.bci kept.frame bci other) :
    frame.marks = other.marks ↔ Similar frame other := by
  apply marks_eq_iff
  rw [run.length, run'.length, start_locals remaining.verified remaining.lastMember,
    start_locals remaining.verified remaining.keptMember]

/-- A redundant map has the marks that are carried to it. -/
theorem redundant_similar
    (remaining : Remaining method maps kept last (map :: rest))
    (redundant : redundantAfter method last map = true) :
    ∃ frame, Runs method last.bci last.frame map.bci frame ∧
      Similar frame (readMap method map).frame := by
  unfold redundantAfter at redundant
  rw [Bool.and_eq_true, decide_eq_true_iff, decide_eq_true_iff, Option.map_eq_some_iff] at redundant
  obtain ⟨-, frame, carried, marks⟩ := redundant
  have run := (interpretFrom_eq_some_iff (remaining.above map List.mem_cons_self)).mp carried
  refine ⟨frame, run, (marks_eq_iff ?_).mp marks⟩
  rw [run.length, start_locals remaining.verified remaining.lastMember,
    readMap_locals (remaining.verified.locals map (remaining.members map List.mem_cons_self))]

/-- Where the stores agree the marks are carried on alike. -/
theorem carried_similar
    {limit : Option (Nat × Bool)}
    (agree : StoresAgree method kept last limit)
    {carried : Frame}
    (reached : Runs method kept.bci kept.frame last.bci carried)
    (similar : Similar last.frame carried)
    (within : ∀ next ≤ bci, Within method limit next)
    {frame : Frame}
    (run : Runs method last.bci last.frame bci frame) :
    ∃ frame', Runs method kept.bci kept.frame bci frame' ∧ Similar frame frame' := by
  obtain ⟨frame', run', similar'⟩ := runs_similar run similar (by
    intro place middle middle' index first first' below stores
    have same := agree place index (first.follows .here) stores (within _ below)
    unfold openedFrom at same
    rw [← first.opened (Nat.le_refl _),
      ← (reached.trans first').opened (Nat.le_refl _)] at same
    exact same)
  exact ⟨frame', reached.trans run', similar'⟩

theorem marksAfter_of_lt
    {start : Start}
    (before : ∀ map ∈ rest, bci < map.bci) :
    marksAfter method start rest bci = (interpretFrom method start bci).map Frame.marks := by
  unfold marksAfter
  rw [startAfter_of_lt before]

theorem marksAfter_of_le
    {start : Start}
    (reached : map.bci ≤ bci) :
    marksAfter method start (map :: rest) bci = marksAfter method (readMap method map) rest bci := by
  unfold marksAfter
  rw [startAfter, if_neg (Nat.not_lt.mpr reached)]

theorem below_removed
    (remaining : Remaining method maps kept last (map :: rest))
    (before : bci < map.bci) :
    ∀ other ∈ removeAfter method last (map :: rest), bci < other.bci := by
  intro other member
  rcases List.mem_cons.mp (removeAfter_sublist.mem member) with rfl | later
  · exact before
  · exact before.trans ((List.pairwise_cons.mp remaining.sorted).1 other later)

/-- While the stores agree, a run from the kept map makes the marks of the last one. -/
theorem same_marks_of_similar
    (remaining : Remaining method maps kept last rest)
    {limit : Option (Nat × Bool)}
    (agree : StoresAgree method kept last limit)
    {carried : Frame}
    (reached : Runs method kept.bci kept.frame last.bci carried)
    (similar : Similar last.frame carried)
    (within : ∀ next ≤ bci, Within method limit next)
    (above : last.bci ≤ bci)
    {marks : List Bool}
    (before : (interpretFrom method last bci).map Frame.marks = some marks) :
    (interpretFrom method kept bci).map Frame.marks = some marks := by
  obtain ⟨frame, run, rfl⟩ := Option.map_eq_some_iff.mp before
  have run := (interpretFrom_eq_some_iff above).mp run
  obtain ⟨frame', run', same⟩ := carried_similar agree reached similar within run
  rw [(interpretFrom_eq_some_iff (reached.le.trans above)).mpr run', Option.map_some,
    (marks_of_similar remaining run run').mpr same]

theorem marksAfter_removeAfter
    (remaining : Remaining method maps kept last rest)
    (agree : AllStoresAgree method kept last rest)
    {carried : Frame}
    (reached : Runs method kept.bci kept.frame last.bci carried)
    (similar : Similar last.frame carried)
    (inside : bci < method.codeSize)
    (above : last.bci ≤ bci)
    {marks : List Bool}
    (before : marksAfter method last rest bci = some marks) :
    marksAfter method kept (removeAfter method last rest) bci = some marks := by
  induction rest generalizing kept last carried with
  | nil =>
      have within : ∀ next ≤ bci, Within method none next :=
        fun next below => ⟨below.trans_lt inside, trivial⟩
      exact same_marks_of_similar remaining agree reached similar within above before
  | cons map rest induction =>
      obtain ⟨agree, agreeRest⟩ := agree
      have mapMember : readMap method map ∈ starts method maps := List.mem_cons_of_mem _
        (List.mem_map_of_mem (remaining.members map List.mem_cons_self))
      by_cases early : bci < map.bci
      · have within : ∀ next ≤ bci,
            Within method (some (map.bci, redundantAfter method last map)) next :=
          fun next below => ⟨below.trans_lt inside, .inl (below.trans_lt early)⟩
        rw [marksAfter_of_lt (List.forall_mem_cons.mpr ⟨early, fun other later =>
          early.trans ((List.pairwise_cons.mp remaining.sorted).1 other later)⟩)] at before
        rw [marksAfter_of_lt (below_removed remaining early)]
        exact same_marks_of_similar remaining agree reached similar within above before
      · have late : map.bci ≤ bci := Nat.le_of_not_lt early
        rw [marksAfter_of_le late] at before
        unfold removeAfter
        cases redundant : redundantAfter method last map with
        | true =>
            rw [redundant, if_pos rfl] at agreeRest
            rw [redundant] at agree
            rw [if_pos rfl]
            have mapInside := remaining.verified.inside map
              (remaining.members map List.mem_cons_self)
            have within : ∀ next ≤ map.bci, Within method (some (map.bci, true)) next :=
              fun next below => ⟨below.trans_lt mapInside,
                (Nat.lt_or_eq_of_le below).imp_right fun here => ⟨here, rfl⟩⟩
            obtain ⟨frame, run, same⟩ := redundant_similar remaining redundant
            obtain ⟨frame', run', same'⟩ := carried_similar agree reached similar within run
            exact induction (remaining.next kept remaining.keptMember) agreeRest run'
              (same.symm.trans same') late before
        | false =>
            rw [redundant, if_neg Bool.false_ne_true] at agreeRest
            rw [if_neg Bool.false_ne_true, marksAfter_of_le late]
            exact induction (remaining.next _ mapMember) agreeRest .here (.refl _) late before

/-! ## Where the marks are the same the stores agree -/

theorem Follows.le {start : Nat} (follows : Follows method start bci) : start ≤ bci := by
  induction follows with
  | here => exact Nat.le_refl _
  | step before goesOn induction => exact induction.trans (method.lt_nextBci _).le

theorem Within.before
    {limit : Option (Nat × Bool)}
    {next : Nat}
    (within : Within method limit next)
    (before : bci < next) :
    Within method limit bci := by
  refine ⟨before.trans within.1, ?_⟩
  cases limit with
  | none => trivial
  | some pair =>
      rcases within.2 with below | ⟨rfl, -⟩
      · exact .inl (before.trans below)
      · exact .inl before

theorem similar_of_marks
    (remaining : Remaining method maps kept last rest)
    {frame : Frame}
    (run : Runs method last.bci last.frame bci frame)
    (above : kept.bci ≤ bci)
    (carry : ∀ marks, (interpretFrom method last bci).map Frame.marks = some marks →
      (interpretFrom method kept bci).map Frame.marks = some marks) :
    ∃ frame', Runs method kept.bci kept.frame bci frame' ∧ Similar frame frame' := by
  have found := (interpretFrom_eq_some_iff run.le).mpr run
  have same := carry frame.marks (by rw [found]; rfl)
  obtain ⟨frame', found', marks⟩ := Option.map_eq_some_iff.mp same
  have run' := (interpretFrom_eq_some_iff above).mp found'
  exact ⟨frame', run', (marks_of_similar remaining run run').mp marks.symm⟩

theorem storesAgree_of_marks
    (remaining : Remaining method maps kept last rest)
    {limit : Option (Nat × Bool)}
    (order : kept.bci ≤ last.bci)
    (carry : ∀ bci, last.bci ≤ bci → Within method limit bci → ∀ marks,
      (interpretFrom method last bci).map Frame.marks = some marks →
        (interpretFrom method kept bci).map Frame.marks = some marks) :
    StoresAgree method kept last limit := by
  intro bci index follows stores within
  have ahead := method.lt_nextBci bci
  have goesOn : comesBack (method.operationAt bci) = true := by
    rw [stores]
    rfl
  have above := follows.le
  have aboveNext := above.trans ahead.le
  obtain ⟨frame, found⟩ := remaining.verified.interprets last remaining.lastMember bci
    (ahead.trans within.1) follows
  obtain ⟨next, foundNext⟩ := remaining.verified.interprets last remaining.lastMember
    (method.nextBci bci) within.1 (follows.step goesOn)
  have run := (interpretFrom_eq_some_iff above).mp found
  have runNext := (interpretFrom_eq_some_iff aboveNext).mp foundNext
  obtain ⟨frame', run', similar⟩ := similar_of_marks remaining run (order.trans above)
    (carry bci above (within.before ahead))
  obtain ⟨next', runNext', similarNext⟩ := similar_of_marks remaining runNext
    (order.trans aboveNext) (carry _ aboveNext within)
  -- One operation leads from the one pair of frames to the other.
  have step : interpretOperation method (method.operationAt bci) frame = some next :=
    (run.split runNext ahead.le).operation_of_next
  have step' : interpretOperation method (method.operationAt bci) frame' = some next' :=
    (run'.split runNext' ahead.le).operation_of_next
  obtain ⟨final, operation, iff⟩ := operation_similar similar step
  cases step'.symm.trans operation
  have same := iff.mp similarNext index stores
  rw [run.opened (Nat.le_refl _), run'.opened (Nat.le_refl _)] at same
  exact same

theorem allStoresAgree_of_marks
    (remaining : Remaining method maps kept last rest)
    (order : kept.bci ≤ last.bci)
    (same : ∀ bci < method.codeSize, last.bci ≤ bci → ∀ marks,
      marksAfter method last rest bci = some marks →
        marksAfter method kept (removeAfter method last rest) bci = some marks) :
    AllStoresAgree method kept last rest := by
  induction rest generalizing kept last with
  | nil =>
      refine storesAgree_of_marks remaining order ?_
      intro bci above within marks
      exact same bci within.1 above marks
  | cons map rest induction =>
      have mapMember : readMap method map ∈ starts method maps := List.mem_cons_of_mem _
        (List.mem_map_of_mem (remaining.members map List.mem_cons_self))
      have mapAbove := remaining.above map List.mem_cons_self
      have later := (List.pairwise_cons.mp remaining.sorted).1
      constructor
      · refine storesAgree_of_marks remaining order ?_
        intro bci above within marks carried
        have kept' := same bci within.1 above marks
        rcases within.2 with early | ⟨rfl, redundant⟩
        · rw [marksAfter_of_lt (List.forall_mem_cons.mpr ⟨early, fun other member =>
            early.trans (later other member)⟩), marksAfter_of_lt (below_removed remaining early)]
            at kept'
          exact kept' carried
        · obtain ⟨frame, run, similar⟩ := redundant_similar remaining redundant
          have read : (readMap method map).frame.marks = marks := by
            rw [(interpretFrom_eq_some_iff mapAbove).mpr run] at carried
            rw [← Option.some.inj carried]
            refine ((marks_eq_iff ?_).mpr similar).symm
            exact similar.length
          rw [marksAfter_of_le (Nat.le_refl _), marksAfter_of_lt later] at kept'
          unfold removeAfter at kept'
          rw [if_pos redundant, marksAfter_of_lt (fun other member =>
            later other (removeAfter_sublist.mem member))] at kept'
          refine kept' ?_
          change (interpretFrom method (readMap method map) (readMap method map).bci).map _ = _
          rw [interpretFrom_here, Option.map_some, read]
      · cases redundant : redundantAfter method last map with
        | true =>
            rw [if_pos rfl]
            refine induction (remaining.next kept remaining.keptMember) (order.trans mapAbove) ?_
            intro bci inside above marks carried
            have kept' := same bci inside (mapAbove.trans above) marks
            rw [marksAfter_of_le above] at kept'
            unfold removeAfter at kept'
            rw [if_pos redundant] at kept'
            exact kept' carried
        | false =>
            rw [if_neg Bool.false_ne_true]
            refine induction (remaining.next _ mapMember) (Nat.le_refl _) ?_
            intro bci inside above marks carried
            have kept' := same bci inside (mapAbove.trans above) marks
            rw [marksAfter_of_le above] at kept'
            unfold removeAfter at kept'
            rw [redundant, if_neg Bool.false_ne_true, marksAfter_of_le above] at kept'
            exact kept' carried

end Removal

/-- The marks are the same at every bytecode index exactly when no reference is stored behind a
`long` or `double` that only the interpretation from a kept map knows of. -/
theorem removeRedundantStackmaps_marks_iff
    {method : Method}
    {maps : List Stackmap}
    (verified : Verified method maps) :
    (∀ bci < method.codeSize, ∀ marks,
      generateStackmap method maps false bci = some marks →
        generateStackmap method (removeRedundantStackmaps method maps) false bci = some marks) ↔
      AllStoresAgree method (methodStart method) (methodStart method) maps := by
  have remaining : Remaining method maps (methodStart method) (methodStart method) maps :=
    { verified
      keptMember := List.mem_cons_self
      lastMember := List.mem_cons_self
      members := fun _ member => member
      above := fun _ _ => Nat.zero_le _
      sorted := verified.sorted }
  have sortedAfter := verified.sorted.sublist (@removeAfter_sublist method (methodStart method) maps)
  rw [removeRedundantStackmaps_eq verified]
  simp only [generateStackmap_eq verified.sorted, generateStackmap_eq sortedAfter]
  constructor
  · intro same
    refine allStoresAgree_of_marks remaining (Nat.le_refl _) ?_
    intro bci inside _
    exact same bci inside
  · intro agree bci inside marks before
    exact marksAfter_removeAfter remaining agree .here (.refl _) inside (Nat.zero_le _) before

section Shapes

/-- A loop over a method that sets a `long` and then stores `this` into a local. -/
def exampleMethod (stored : Nat) : Method where
  codeSize := 9
  maxLocals := 4
  maxExecutionStackCount := 6
  parameters := [.object]
  operationAt
    | 0 => .plain .pushLong
    | 1 => .plain (.storeLocal (.primitive .long) 1)
    | 2 => .plain (.loadLocal .object 0)
    | 3 => .plain (.storeLocal .object stored)
    | 4 => .plain (.loadLocal .object 0)
    | 5 => .plain (.branchIf true 2)
    | _ => .plain (.returnOp none)
  nextBci bci := if bci = 5 then 8 else bci + 1
  lt_nextBci bci := by
    split <;> omega
  fieldType _ := .object
  invoked _ := (0, none)

/-- The target of the loop; only `this` is a reference. -/
def exampleMaps : List Stackmap :=
  [⟨2, 4, 0, .short 1⟩]

theorem exampleMethod_follows
    {stored start bci : Nat}
    (startInside : start = 0 ∨ start = 2)
    (follows : Follows (exampleMethod stored) start bci) :
    start ≤ bci ∧ bci ∈ [0, 1, 2, 3, 4, 5, 8] := by
  induction follows with
  | here => rcases startInside with rfl | rfl <;> decide
  | @step bci before goesOn induction =>
      obtain ⟨above, member⟩ := induction
      refine ⟨above.trans ((exampleMethod stored).lt_nextBci bci).le, ?_⟩
      simp only [List.mem_cons, List.not_mem_nil, or_false] at member
      rcases member with rfl | rfl | rfl | rfl | rfl | rfl | rfl
      all_goals first | (cases goesOn; done) | simp [exampleMethod]

theorem exampleMethod_verified
    {stored : Nat}
    (inside : stored = 2 ∨ stored = 3) :
    Verified (exampleMethod stored) exampleMaps := by
  have places : ∀ start ∈ starts (exampleMethod stored) exampleMaps,
      start.bci = 0 ∨ start.bci = 2 := by
    simp [starts, exampleMaps, methodStart, readMap]
  constructor
  · rfl
  · exact List.pairwise_singleton _ _
  · intro map member
    rw [List.mem_singleton.mp member]
    exact (by decide : 2 < 9)
  · intro map member
    rw [List.mem_singleton.mp member]
    exact (by decide : 4 ≤ 4)
  · intro start member bci _ follows
    obtain ⟨above, listed⟩ := exampleMethod_follows (places start member) follows
    have found : ∀ start ∈ starts (exampleMethod stored) exampleMaps,
        ∀ bci ∈ [0, 1, 2, 3, 4, 5, 8], start.bci ≤ bci →
          (interpretFrom (exampleMethod stored) start bci).isSome = true := by
      rcases inside with rfl | rfl <;> decide
    exact Option.isSome_iff_exists.mp (found start member bci listed above)
  · intro start member map mapMember _ frame run
    have heights : ∀ start ∈ starts (exampleMethod stored) exampleMaps, ∀ map ∈ exampleMaps,
        (interpretFrom (exampleMethod stored) start map.bci).all
          (fun frame => decide (frame.stack.length = map.stackHeight)) = true := by
      rcases inside with rfl | rfl <;> decide
    have height := heights start member map mapMember
    rw [run] at height
    exact of_decide_eq_true height

/-- The map goes, and the reference in the second word of the `long` is no longer marked. -/
theorem removeRedundantStackmaps_loses_reference :
    Verified (exampleMethod 2) exampleMaps ∧
      generateStackmap (exampleMethod 2) exampleMaps false 4 = some [true, false, true, false] ∧
      generateStackmap (exampleMethod 2)
        (removeRedundantStackmaps (exampleMethod 2) exampleMaps) false 4 =
          some [true, false, false, false] :=
  ⟨exampleMethod_verified (.inl rfl), by decide, by decide⟩

/-- Behind the `long` the store is marked as before. -/
theorem removeRedundantStackmaps_keeps_marks :
    removeRedundantStackmaps (exampleMethod 3) exampleMaps = [] ∧
      ∀ bci < (exampleMethod 3).codeSize, ∀ marks,
        generateStackmap (exampleMethod 3) exampleMaps false bci = some marks →
          generateStackmap (exampleMethod 3)
            (removeRedundantStackmaps (exampleMethod 3) exampleMaps) false bci = some marks := by
  refine ⟨by decide, (removeRedundantStackmaps_marks_iff
    (exampleMethod_verified (.inr rfl))).mpr ⟨fun _ _ _ _ _ => rfl, ?_⟩⟩
  intro bci index follows stores _
  have listed := (exampleMethod_follows (.inr rfl) follows)
  simp only [List.mem_cons, List.not_mem_nil, or_false] at listed
  obtain ⟨above, rfl | rfl | rfl | rfl | rfl | rfl | rfl⟩ := listed
  all_goals cases stores
  decide

end Shapes

end PicoJvm.Stackmaps
