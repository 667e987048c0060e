import PicoJvm.Verifier.VerifiedRun

/-!
# Dispatch of switches

The interpreter's `tableswitch` and `lookupswitch`, the targets that the operands of a class file
call for, and the targets that the verifier has checked.
-/

namespace PicoJvm.SwitchDispatch

open PicoJvm.Lib
open PicoJvm.Lib.Fallible
open PicoJvm.Bytecodes
open PicoJvm.CodeBytes
open PicoJvm.Tiling
open PicoJvm.ScanStep
open PicoJvm.CheckedCode
open PicoJvm.Verifier

/-! ## The interpreter -/

/-- `int_from_addr(addr)`, for code that lies at `codeBase`. -/
def intFromAddr (code : Code) (codeBase addr : Int) : Except Fault Int :=
  if addr < codeBase then
    .error .readPastEnd
  else do
    let word ← getNativeAlignedInt code (addr - codeBase).toNat
    return toJint word

/-- `(address)((jint)(g_jpc + 1 + 3) & ~3)`. -/
def alignedJpc (jpc : Int) : Int :=
  jpc + 1 + 3 - (jpc + 1 + 3) % 4

/-- `tableswitch`: the new value of `g_jpc`. -/
def bcImplTableswitch (code : Code) (codeBase jpc index : Int) : Except Fault Int := do
  let aligned := alignedJpc jpc
  let target ← intFromAddr code codeBase aligned
  let low ← intFromAddr code codeBase (aligned + 4)
  let high ← intFromAddr code codeBase (aligned + 8)
  if low ≤ index ∧ index ≤ high then do
    let target ← intFromAddr code codeBase
      (aligned + 12 + wrapInt (wrapInt (index - low) * 4))
    return jpc + target
  else
    return jpc + target

/-- The loop of `lookupswitch` over the pairs that are left. -/
def searchPairs (code : Code) (codeBase key target : Int) :
    (npairs : Nat) → (aligned : Int) → Except Fault Int
  | 0, _ => return target
  | npairs + 1, aligned => do
      let found ← intFromAddr code codeBase (aligned + 8)
      if found = key then
        intFromAddr code codeBase (aligned + 8 + 4)
      else
        searchPairs code codeBase key target npairs (aligned + 8)

/-- `lookupswitch`: the new value of `g_jpc`. -/
def bcImplLookupswitch (code : Code) (codeBase jpc key : Int) : Except Fault Int := do
  let aligned := alignedJpc jpc
  let target ← intFromAddr code codeBase aligned
  let npairs ← intFromAddr code codeBase (aligned + 4)
  let target ← searchPairs code codeBase key target npairs.toNat aligned
  return jpc + target

/-- The switch at `bci`, as its bytecode in the code selects the implementation. -/
def dispatchSwitch (code : Code) (codeBase : Int) (bci : Nat) (key : Int) : Except Fault Int :=
  if byteD code bci = tableswitch then
    bcImplTableswitch code codeBase (codeBase + bci) key
  else
    bcImplLookupswitch code codeBase (codeBase + bci) key

/-! ## What the class file calls for -/

/-- `CaseTarget code bci key target`: the operands of the switch at `bci` send `key` to `target`.
The code is as in the class file. -/
inductive CaseTarget (code : Code) (bci : Nat) (key : Int) : Int → Prop
  | tableCase (entry : Nat) :
      byteD code bci = tableswitch →
      key = javaInt code (operands bci + 4) + entry →
      key ≤ javaInt code (operands bci + 8) →
      CaseTarget code bci key (bci + javaInt code (operands bci + 12 + 4 * entry))
  | tableDefault :
      byteD code bci = tableswitch →
      key < javaInt code (operands bci + 4) ∨ javaInt code (operands bci + 8) < key →
      CaseTarget code bci key (bci + javaInt code (operands bci))
  | lookupCase (pair : Nat) :
      byteD code bci = lookupswitch →
      pair < javaInt code (operands bci + 4) →
      key = javaInt code (operands bci + 8 + 8 * pair) →
      CaseTarget code bci key (bci + javaInt code (operands bci + 12 + 8 * pair))
  | lookupDefault :
      byteD code bci = lookupswitch →
      (∀ pair : Nat, pair < javaInt code (operands bci + 4) →
        key ≠ javaInt code (operands bci + 8 + 8 * pair)) →
      CaseTarget code bci key (bci + javaInt code (operands bci))

/-- The verifier has checked that the switch at `bci` may go to `target`: there is a stack map,
and it accepts the frame without the key. -/
def CheckedTarget (method : Method) (world : ClassWorld) (bci : Nat) (target : Int) : Prop :=
  ∃ entered frame, PassedAt method world bci entered ∧
    popInteger entered.frame = .ok frame ∧
    MatchesAt ⟨method, world, bci⟩ frame target

/-- The switch at `bci` goes where the class file says, and where the verifier has looked. -/
structure DispatchAgrees (classFile : Code) (method : Method) (world : ClassWorld)
    (starts : List Nat) (codeBase : Int) (bci : Nat) (key : Int) (target : Nat) : Prop where
  jumps : dispatchSwitch method.code codeBase bci key = .ok (codeBase + target)
  isCase : ∀ other : Int, CaseTarget classFile bci key other ↔ other = target
  isStart : target ∈ starts
  inside : target < method.code.length
  checked : CheckedTarget method world bci target

/-! ## Reading the operands -/

/-- A complete switch at `bci` of a class file, whose operand words the loaded code has in native
order. -/
structure LoadedSwitch (classFile code : Code) (bci : Nat) : Prop where
  kept : LengthKept classFile code bci
  isSwitch : IsSwitch (byteD classFile bci)
  counts : CountsInOrder classFile bci
  complete : operands bci + 4 * switchWords classFile bci ≤ classFile.length

section Operands

variable {classFile code : Code} {bci : Nat} {codeBase : Int}

theorem alignedJpc_eq
    (aligned : codeBase % 4 = 0) :
    alignedJpc (codeBase + bci) = codeBase + operands bci := by
  unfold alignedJpc operands alignSizeUp wordSize
  omega

/-- The verifier reads the operand word that the class file has there. -/
theorem LoadedSwitch.javaSwitchInt_eq
    (loaded : LoadedSwitch classFile code bci)
    (word : Nat) {place : Nat}
    (inRange : word < switchWords classFile bci)
    (isPlace : place = operands bci + 4 * word) :
    javaSwitchInt code place = javaInt classFile place := by
  rw [javaSwitchInt, isPlace, loaded.kept.words loaded.isSwitch word inRange]
  rfl

theorem LoadedSwitch.defaultEq
    (loaded : LoadedSwitch classFile code bci) :
    javaSwitchInt code (operands bci) = javaInt classFile (operands bci) := by
  have enough := two_le_switchWords loaded.counts
  exact loaded.javaSwitchInt_eq 0 (by omega) (by omega)

/-- So does the interpreter. -/
theorem LoadedSwitch.intFromAddr_eq
    (loaded : LoadedSwitch classFile code bci)
    (word : Nat) {place : Nat} {addr : Int}
    (inRange : word < switchWords classFile bci)
    (isPlace : place = operands bci + 4 * word)
    (isAddr : addr = codeBase + place) :
    intFromAddr code codeBase addr = .ok (javaInt classFile place) := by
  have notBelow : ¬ addr < codeBase := by omega
  have offset : (addr - codeBase).toNat = place := by omega
  have complete := loaded.complete
  have inside : place + 3 < code.length := by
    rw [loaded.kept.sameLength]
    omega
  rw [← loaded.javaSwitchInt_eq word inRange isPlace, intFromAddr, if_neg notBelow, offset,
    getNativeAlignedInt_eq inside]
  rfl

theorem LoadedSwitch.words_tableswitch
    (loaded : LoadedSwitch classFile code bci)
    (isTable : byteD classFile bci = tableswitch) :
    (switchWords classFile bci : Int) =
        4 + javaInt classFile (operands bci + 8) - javaInt classFile (operands bci + 4) ∧
      4 ≤ switchWords classFile bci :=
  switchWords_tableswitch isTable loaded.counts

theorem LoadedSwitch.words_lookupswitch
    (loaded : LoadedSwitch classFile code bci)
    (isLookup : byteD classFile bci = lookupswitch) :
    (switchWords classFile bci : Int) = 2 + 2 * javaInt classFile (operands bci + 4) := by
  apply switchWords_lookupswitch ?_ loaded.counts
  rw [isLookup]
  decide

theorem LoadedSwitch.two_le_words
    (loaded : LoadedSwitch classFile code bci) :
    2 ≤ switchWords classFile bci :=
  two_le_switchWords loaded.counts

/-! ## The interpreter follows the class file -/

/-- The keys of a `lookupswitch` increase. -/
def KeysIncrease (classFile : Code) (bci : Nat) : Prop :=
  ∀ earlier later : Nat, earlier < later → later < javaInt classFile (operands bci + 4) →
    javaInt classFile (operands bci + 8 + 8 * earlier) <
      javaInt classFile (operands bci + 8 + 8 * later)

/-- The index of a table entry is computed without overflow. -/
theorem tableOffset_eq
    {index low : Int} {entry : Nat}
    (isEntry : index = low + entry)
    (small : entry < 65536) :
    wrapInt (wrapInt (index - low) * 4) = 4 * entry := by
  have difference : index - low = entry := by omega
  have inner : wrapInt (entry : Int) = entry := wrapInt_of_small (by omega) (by omega)
  rw [difference, inner, wrapInt_of_small (by omega) (by omega)]
  omega

theorem bcImplTableswitch_case
    (loaded : LoadedSwitch classFile code bci)
    (small : classFile.length < 65536)
    (aligned : codeBase % 4 = 0)
    {key target : Int}
    (isTable : byteD classFile bci = tableswitch)
    (isCase : CaseTarget classFile bci key target) :
    bcImplTableswitch code codeBase (codeBase + bci) key = .ok (codeBase + target) := by
  have words := loaded.words_tableswitch isTable
  have complete := loaded.complete
  have readDefault : intFromAddr code codeBase (codeBase + operands bci) =
      .ok (javaInt classFile (operands bci)) :=
    loaded.intFromAddr_eq 0 (by omega) rfl rfl
  have readLow : intFromAddr code codeBase (codeBase + operands bci + 4) =
      .ok (javaInt classFile (operands bci + 4)) :=
    loaded.intFromAddr_eq 1 (by omega) rfl (by omega)
  have readHigh : intFromAddr code codeBase (codeBase + operands bci + 8) =
      .ok (javaInt classFile (operands bci + 8)) :=
    loaded.intFromAddr_eq 2 (by omega) rfl (by omega)
  simp only [bcImplTableswitch, alignedJpc_eq aligned, readDefault, readLow, readHigh, ok_bind]
  cases isCase with
  | tableCase entry _ isEntry atMost =>
      have readEntry : intFromAddr code codeBase (codeBase + operands bci + 12 + 4 * entry) =
          .ok (javaInt classFile (operands bci + 12 + 4 * entry)) :=
        loaded.intFromAddr_eq (3 + entry) (by omega) (by omega) (by omega)
      rw [if_pos ⟨by omega, atMost⟩, tableOffset_eq isEntry (by omega), readEntry, ok_bind,
        pure_eq_ok, Int.add_assoc]
  | tableDefault _ outside =>
      rw [if_neg (by omega), pure_eq_ok, Int.add_assoc]
  | lookupCase _ isLookup _ _ =>
      rw [isTable] at isLookup
      cases isLookup
  | lookupDefault isLookup _ =>
      rw [isTable] at isLookup
      cases isLookup

/-- The search, from the pair `first` on, when the key is that of the pair `found`. -/
theorem searchPairs_found
    (loaded : LoadedSwitch classFile code bci)
    (isLookup : byteD classFile bci = lookupswitch)
    (codeBase target : Int) {npairs first found : Nat}
    (inTable : (first + npairs : Nat) ≤ javaInt classFile (operands bci + 4))
    (increase : KeysIncrease classFile bci)
    (notBefore : first ≤ found)
    (isFound : found < first + npairs) :
    searchPairs code codeBase (javaInt classFile (operands bci + 8 + 8 * found)) target npairs
        (codeBase + operands bci + 8 * first) =
      .ok (javaInt classFile (operands bci + 12 + 8 * found)) := by
  have words := loaded.words_lookupswitch isLookup
  induction npairs generalizing first with
  | zero =>
      omega
  | succ npairs inductionHypothesis =>
      have readKey : intFromAddr code codeBase (codeBase + operands bci + 8 * first + 8) =
          .ok (javaInt classFile (operands bci + 8 + 8 * first)) :=
        loaded.intFromAddr_eq (2 + 2 * first) (by omega) (by omega) (by omega)
      rw [searchPairs, readKey, ok_bind]
      rcases Nat.eq_or_lt_of_le notBefore with rfl | later
      · rw [if_pos rfl]
        exact loaded.intFromAddr_eq (3 + 2 * first) (by omega) (by omega) (by omega)
      · have below := increase first found later (by omega)
        rw [if_neg (by omega)]
        have next : codeBase + operands bci + 8 * first + 8 =
            codeBase + operands bci + 8 * (first + 1 : Nat) := by omega
        rw [next]
        exact inductionHypothesis (by omega) (by omega) (by omega)

/-- The search, from the pair `first` on, when no pair has the key. -/
theorem searchPairs_none
    (loaded : LoadedSwitch classFile code bci)
    (isLookup : byteD classFile bci = lookupswitch)
    (codeBase target : Int) {key : Int} {npairs first : Nat}
    (inTable : (first + npairs : Nat) ≤ javaInt classFile (operands bci + 4))
    (noPair : ∀ pair : Nat, pair < javaInt classFile (operands bci + 4) →
      key ≠ javaInt classFile (operands bci + 8 + 8 * pair)) :
    searchPairs code codeBase key target npairs (codeBase + operands bci + 8 * first) =
      .ok target := by
  have words := loaded.words_lookupswitch isLookup
  induction npairs generalizing first with
  | zero =>
      rfl
  | succ npairs inductionHypothesis =>
      have readKey : intFromAddr code codeBase (codeBase + operands bci + 8 * first + 8) =
          .ok (javaInt classFile (operands bci + 8 + 8 * first)) :=
        loaded.intFromAddr_eq (2 + 2 * first) (by omega) (by omega) (by omega)
      have different := noPair first (by omega)
      have next : codeBase + operands bci + 8 * first + 8 =
          codeBase + operands bci + 8 * (first + 1 : Nat) := by omega
      rw [searchPairs, readKey, ok_bind, if_neg different.symm, next]
      exact inductionHypothesis (by omega)

theorem bcImplLookupswitch_case
    (loaded : LoadedSwitch classFile code bci)
    (aligned : codeBase % 4 = 0)
    (increase : KeysIncrease classFile bci)
    {key target : Int}
    (isLookup : byteD classFile bci = lookupswitch)
    (isCase : CaseTarget classFile bci key target) :
    bcImplLookupswitch code codeBase (codeBase + bci) key = .ok (codeBase + target) := by
  have words := loaded.words_lookupswitch isLookup
  have enough := loaded.two_le_words
  have readDefault : intFromAddr code codeBase (codeBase + operands bci) =
      .ok (javaInt classFile (operands bci)) :=
    loaded.intFromAddr_eq 0 (by omega) rfl rfl
  have readCount : intFromAddr code codeBase (codeBase + operands bci + 4) =
      .ok (javaInt classFile (operands bci + 4)) :=
    loaded.intFromAddr_eq 1 (by omega) rfl (by omega)
  have inTable : ((0 + (javaInt classFile (operands bci + 4)).toNat : Nat) : Int) ≤
      javaInt classFile (operands bci + 4) := by omega
  have start : codeBase + operands bci + 8 * (0 : Nat) = codeBase + operands bci := by omega
  simp only [bcImplLookupswitch, alignedJpc_eq aligned]
  rw [readDefault, ok_bind, readCount, ok_bind]
  cases isCase with
  | lookupCase pair _ below isKey =>
      have search := searchPairs_found loaded isLookup codeBase
        (javaInt classFile (operands bci)) inTable increase (Nat.zero_le pair) (by omega)
      rw [start] at search
      rw [isKey, search, ok_bind, pure_eq_ok, Int.add_assoc]
  | lookupDefault _ noPair =>
      have search := searchPairs_none loaded isLookup codeBase
        (javaInt classFile (operands bci)) inTable noPair
      rw [start] at search
      rw [search, ok_bind, pure_eq_ok, Int.add_assoc]
  | tableCase _ isTable _ _ =>
      rw [isLookup] at isTable
      cases isTable
  | tableDefault isTable _ =>
      rw [isLookup] at isTable
      cases isTable

/-- Every key is a case or goes to the default. -/
theorem exists_caseTarget
    (isSwitch : IsSwitch (byteD classFile bci))
    (key : Int) :
    ∃ target, CaseTarget classFile bci key target := by
  rcases isSwitch with isTable | isLookup
  · by_cases inside : javaInt classFile (operands bci + 4) ≤ key ∧
        key ≤ javaInt classFile (operands bci + 8)
    · obtain ⟨above, atMost⟩ := inside
      obtain ⟨entry, isEntry⟩ := Int.le.dest above
      exact ⟨_, .tableCase entry isTable isEntry.symm atMost⟩
    · exact ⟨_, .tableDefault isTable (by omega)⟩
  · by_cases inTable : ∃ pair : Nat, pair < javaInt classFile (operands bci + 4) ∧
        key = javaInt classFile (operands bci + 8 + 8 * pair)
    · obtain ⟨pair, inRange, isKey⟩ := inTable
      exact ⟨_, .lookupCase pair isLookup inRange isKey⟩
    · refine ⟨_, .lookupDefault isLookup ?_⟩
      intro pair inRange isKey
      exact inTable ⟨pair, inRange, isKey⟩

/-- The interpreter goes where the class file says. -/
theorem dispatchSwitch_case
    (loaded : LoadedSwitch classFile code bci)
    (small : classFile.length < 65536)
    (aligned : codeBase % 4 = 0)
    (increase : byteD classFile bci = lookupswitch → KeysIncrease classFile bci)
    {key target : Int}
    (isCase : CaseTarget classFile bci key target) :
    dispatchSwitch code codeBase bci key = .ok (codeBase + target) := by
  unfold dispatchSwitch
  rw [loaded.kept.opcode]
  by_cases isTable : byteD classFile bci = tableswitch
  · rw [if_pos isTable]
    exact bcImplTableswitch_case loaded small aligned isTable isCase
  · have isLookup := loaded.isSwitch.resolve_left isTable
    rw [if_neg isTable]
    exact bcImplLookupswitch_case loaded aligned (increase isLookup) isLookup isCase

end Operands

/-! ## The verifier looks where the class file says -/

section Verified

variable {classFile : Code} {method : Method} {world : ClassWorld} {bci : Nat}

theorem decode_tableswitch
    {code : Code} {constants : List Constant}
    (isTable : byteD code bci = tableswitch) :
    decode code constants bci =
      .tableSwitch (bci + javaSwitchInt code (operands bci))
        (tableDests code bci (operands bci)
          (javaSwitchInt code (operands bci + 8) -
            javaSwitchInt code (operands bci + 4) + 1).toNat) := by
  simp [decode, isTable, tableswitch, operands]

theorem decode_lookupswitch
    {code : Code} {constants : List Constant}
    (isLookup : byteD code bci = lookupswitch) :
    decode code constants bci =
      .lookupSwitch (bci + javaSwitchInt code (operands bci))
        (lookupPairs code bci (operands bci) (javaSwitchInt code (operands bci + 4)).toNat) := by
  simp [decode, isLookup, tableswitch, lookupswitch, operands]

theorem mem_tableDests
    (code : Code) (bci aligned : Nat) {entry count : Nat}
    (below : entry < count) :
    bci + javaSwitchInt code (aligned + 12 + 4 * entry) ∈ tableDests code bci aligned count :=
  List.mem_map.mpr ⟨entry, List.mem_range.mpr below, rfl⟩

theorem mem_lookupPairs
    (code : Code) (bci aligned : Nat) {pair count : Nat}
    (below : pair < count) :
    (javaSwitchInt code (aligned + 8 + 8 * pair),
        bci + javaSwitchInt code (aligned + 12 + 8 * pair)) ∈
      lookupPairs code bci aligned count :=
  List.mem_map.mpr ⟨pair, List.mem_range.mpr below, rfl⟩

theorem LoadedSwitch.entryEq
    {code : Code} {entry : Nat}
    (loaded : LoadedSwitch classFile code bci)
    (inRange : 3 + entry < switchWords classFile bci) :
    javaSwitchInt code (operands bci + 12 + 4 * entry) =
      javaInt classFile (operands bci + 12 + 4 * entry) :=
  loaded.javaSwitchInt_eq (3 + entry) inRange (by omega)

theorem LoadedSwitch.destEq
    {code : Code} {pair : Nat}
    (loaded : LoadedSwitch classFile code bci)
    (inRange : 3 + 2 * pair < switchWords classFile bci) :
    javaSwitchInt code (operands bci + 12 + 8 * pair) =
      javaInt classFile (operands bci + 12 + 8 * pair) :=
  loaded.javaSwitchInt_eq (3 + 2 * pair) inRange (by omega)

/-- At a `tableswitch` the default and every entry are checked against one frame. -/
theorem checked_tableswitch
    {entered : VerifyState}
    (loaded : LoadedSwitch classFile method.code bci)
    (isTable : byteD classFile bci = tableswitch)
    (passed : PassedAt method world bci entered)
    {key target : Int}
    (isCase : CaseTarget classFile bci key target) :
    CheckedTarget method world bci target := by
  have words := loaded.words_tableswitch isTable
  have lowEq : javaSwitchInt method.code (operands bci + 4) =
      javaInt classFile (operands bci + 4) :=
    loaded.javaSwitchInt_eq 1 (by omega) rfl
  have highEq : javaSwitchInt method.code (operands bci + 8) =
      javaInt classFile (operands bci + 8) :=
    loaded.javaSwitchInt_eq 2 (by omega) rfl
  obtain ⟨frame', verified⟩ := passed.2
  rw [decode_tableswitch (loaded.kept.opcode.trans isTable),
    loaded.defaultEq, lowEq, highEq] at verified
  obtain ⟨frame, popped, checked⟩ := bind_eq_ok_iff.mp verified
  have allMatch := checkTargets_matches checked
  refine ⟨entered, frame, passed, popped, allMatch target ?_⟩
  cases isCase with
  | tableCase entry _ isEntry atMost =>
      have below : entry < (javaInt classFile (operands bci + 8) -
          javaInt classFile (operands bci + 4) + 1).toNat := by omega
      have inTable := mem_tableDests method.code bci (operands bci) below
      rw [loaded.entryEq (by omega)] at inTable
      exact List.mem_cons_of_mem _ inTable
  | tableDefault _ _ =>
      exact List.mem_cons_self
  | lookupCase _ isLookup _ _ =>
      rw [isTable] at isLookup
      cases isLookup
  | lookupDefault isLookup _ =>
      rw [isTable] at isLookup
      cases isLookup

/-- At a `lookupswitch` the keys increase, and the default and every pair are checked against one
frame. -/
theorem checked_lookupswitch
    {entered : VerifyState}
    (loaded : LoadedSwitch classFile method.code bci)
    (isLookup : byteD classFile bci = lookupswitch)
    (passed : PassedAt method world bci entered) :
    KeysIncrease classFile bci ∧
      ∀ key target, CaseTarget classFile bci key target →
        CheckedTarget method world bci target := by
  have words := loaded.words_lookupswitch isLookup
  have enough := loaded.two_le_words
  obtain ⟨frame', verified⟩ := passed.2
  have countEq : javaSwitchInt method.code (operands bci + 4) =
      javaInt classFile (operands bci + 4) :=
    loaded.javaSwitchInt_eq 1 (by omega) rfl
  rw [decode_lookupswitch (loaded.kept.opcode.trans isLookup), loaded.defaultEq,
    countEq] at verified
  obtain ⟨frame, popped, verified⟩ := bind_eq_ok_iff.mp verified
  obtain ⟨frame1, defaultChecked, checked⟩ := bind_eq_ok_iff.mp verified
  have same := checkTarget_eq defaultChecked
  obtain ⟨_, ordered, allMatch⟩ := checkLookup_matches checked
  have keyOf : ∀ pair : Nat, pair < javaInt classFile (operands bci + 4) →
      javaSwitchInt method.code (operands bci + 8 + 8 * pair) =
        javaInt classFile (operands bci + 8 + 8 * pair) := by
    intro pair inTable
    exact loaded.javaSwitchInt_eq (2 + 2 * pair) (by omega) (by omega)
  refine ⟨?_, ?_⟩
  · intro earlier later before inTable
    have rangeOrdered := List.pairwise_map.mp ordered
    have below := List.pairwise_iff_getElem.mp rangeOrdered earlier later
      (by rw [List.length_range]; omega) (by rw [List.length_range]; omega) before
    simp only [List.getElem_range] at below
    rw [keyOf earlier (by omega), keyOf later inTable] at below
    exact below
  · intro key target isCase
    refine ⟨entered, frame, passed, popped, ?_⟩
    cases isCase with
    | lookupCase pair _ inTable _ =>
        have below : pair < (javaInt classFile (operands bci + 4)).toNat := by omega
        have inPairs := mem_lookupPairs method.code bci (operands bci) below
        rw [loaded.destEq (by omega)] at inPairs
        exact same ▸ allMatch _ inPairs
    | lookupDefault _ _ =>
        exact checkTarget_matches defaultChecked
    | tableCase _ isTable _ _ =>
        rw [isLookup] at isTable
        cases isTable
    | tableDefault isTable _ =>
        rw [isLookup] at isTable
        cases isTable

/-- The verifier has checked every case of a switch it accepted. -/
theorem checkedTarget_of_case
    {entered : VerifyState}
    (loaded : LoadedSwitch classFile method.code bci)
    (passed : PassedAt method world bci entered)
    {key target : Int}
    (isCase : CaseTarget classFile bci key target) :
    CheckedTarget method world bci target := by
  rcases loaded.isSwitch with isTable | isLookup
  · exact checked_tableswitch loaded isTable passed isCase
  · exact (checked_lookupswitch loaded isLookup passed).2 key target isCase

end Verified

/-! ## Accepted methods -/

section Accepted

variable {classFile loaded : CheckBytecodes.Method} {method : Method} {world : ClassWorld}

/-- The scan of the loaded code, the verification and the tiling of the class file come to the
same instructions. -/
theorem tiles_of_verified
    (ownCode : classFile.isNativeOrAbstract = false)
    (accepts : Accepts classFile loaded)
    (sameCode : method.code = loaded.code)
    (verified : verify method world = .ok ()) :
    ∃ starts, Tiles classFile.code starts ∧ RewrittenOnce classFile.code method.code starts ∧
      (∀ start ∈ starts, start < method.code.length ∧
        ∃ entered, PassedAt method world start entered) ∧
      ∀ map ∈ method.stackmaps, map.bci ∈ starts := by
  obtain ⟨starts, course, passed, met⟩ := verify_course verified
  obtain ⟨⟨scanned, last, trail, ends⟩, sameLength⟩ :=
    CodeWalk.scansOver_of_accepted ownCode accepts
  rw [← sameCode] at trail ends sameLength
  have atLeast : ¬ last < method.code.length := by
    rcases ends with ⟨atEnd, _⟩ | past <;> omega
  have scannedInside : ∀ start ∈ scanned, start < method.code.length := by
    intro start member
    obtain ⟨next, step⟩ := trail.exists_step_of_mem member
    exact step.inside
  have scanCourse : Trail (Steps method.code) 0 scanned last :=
    trail.mono_from (CodeWalk.next_forward _) fun _ _ _ step => step.nextBci_eq
  obtain ⟨rfl, rfl⟩ := course.unique (· < method.code.length)
    (steps_deterministic _) (fun start member => (passed start member).1) (Nat.lt_irrefl _)
    scanCourse scannedInside atLeast
  rcases ends with ⟨atEnd, tiling, rewritten⟩ | past
  · rw [atEnd] at tiling
    exact ⟨starts, tiling, rewritten, passed, met⟩
  · omega

/-- A switch that the class file has among its instructions. -/
theorem loadedSwitch_of_mem
    {classFile code : Code} {starts : List Nat} {bci : Nat}
    (tiles : Tiles classFile starts)
    (rewritten : RewrittenOnce classFile code starts)
    (member : bci ∈ starts)
    (isSwitch : IsSwitch (byteD classFile bci)) :
    LoadedSwitch classFile code bci := by
  have kept := lengthKept_of_tiles tiles rewritten member
  obtain ⟨next, length, instruction, _⟩ := tiles.exists_step_of_mem member
  cases instruction with
  | plain _ ofLength positive _ =>
      rw [lengthFor_switch isSwitch] at ofLength
      omega
  | widened isWide _ _ _ _ =>
      rw [isWide] at isSwitch
      exact absurd isSwitch not_isSwitch_wide
  | switch _ _ counts complete =>
      exact ⟨kept, isSwitch, counts, complete⟩

/-- In an accepted method every switch goes, for every key, to the target that the class file has
for that key, and the verifier has checked this target: an instruction starts there, and its stack
map accepts the frame without the key. -/
theorem switch_dispatch_agrees
    (ownCode : classFile.isNativeOrAbstract = false)
    (accepts : Accepts classFile loaded)
    (sameCode : method.code = loaded.code)
    (verified : verify method world = .ok ()) :
    ∃ starts, Tiles classFile.code starts ∧
      ∀ bci ∈ starts, IsSwitch (byteD classFile.code bci) →
        ∀ codeBase : Int, codeBase % 4 = 0 → ∀ key : Int,
          ∃ target, DispatchAgrees classFile.code method world starts codeBase bci key target := by
  obtain ⟨starts, tiles, rewritten, passed, met⟩ :=
    tiles_of_verified ownCode accepts sameCode verified
  refine ⟨starts, tiles, ?_⟩
  intro bci member isSwitch codeBase aligned key
  have switch := loadedSwitch_of_mem tiles rewritten member isSwitch
  obtain ⟨_, entered, passedHere⟩ := passed bci member
  obtain ⟨jump, isCase⟩ := exists_caseTarget isSwitch key
  have checked := checkedTarget_of_case switch passedHere isCase
  obtain ⟨_, _, _, _, isMatch⟩ := checked
  obtain ⟨target, isStart, rfl⟩ := isMatch.exists_start met
  have jumps : ∀ other : Int, CaseTarget classFile.code bci key other →
      dispatchSwitch method.code codeBase bci key = .ok (codeBase + other) := by
    intro other isOther
    apply dispatchSwitch_case switch classFile.codeSizeFits aligned ?_ isOther
    intro isLookup
    exact (checked_lookupswitch switch isLookup passedHere).1
  refine ⟨target, jumps _ isCase, ?_, isStart, (passed target isStart).1, ?_⟩
  · intro other
    constructor
    · intro isOther
      have equal := (jumps _ isOther).symm.trans (jumps _ isCase)
      injection equal with equal
      omega
    · rintro rfl
      exact isCase
  · exact checkedTarget_of_case switch passedHere isCase

end Accepted

/-- `iconst_0`, a `tableswitch` with the single key 0, `return`. -/
def oneKeyCode : Code :=
  [3, 170, 0, 0, 0, 0, 0, 19, 0, 0, 0, 0, 0, 0, 0, 0, 0, 0, 0, 19, 177]

/-- The same with its operands in native order. -/
def oneKeyLoaded : Code :=
  [3, 170, 0, 0, 19, 0, 0, 0, 0, 0, 0, 0, 0, 0, 0, 0, 19, 0, 0, 0, 177]

def oneKey : Method where
  code := oneKeyLoaded
  maxStack := 1
  maxLocals := 0
  isStatic := true
  isObjectInitializer := false
  holderIsObject := false
  signature := ⟨[], none⟩
  constants := []
  exceptionTable := []
  stackmaps := [⟨20, [], []⟩]

theorem oneKey_checked :
    (CheckBytecodes.checkLoop 22 (.initial oneKeyCode)).toOption.map
        (fun scan => (scan.code, scan.bci)) = some (oneKeyLoaded, 21) ∧
      verify oneKey plainWorld = .ok () := by
  decide +kernel

theorem oneKey_accepted :
    ∃ loaded, Accepts (plainMethod oneKeyCode (by decide)) loaded ∧
      loaded.code = oneKeyLoaded := by
  have scanned := oneKey_checked.1
  have ownCode : (plainMethod oneKeyCode (by decide)).isNativeOrAbstract = false := rfl
  rcases checkBytecodes_cases ownCode with
    ⟨scan, run, _, loaded, accepts, sameCode⟩ | ⟨fault, _, run | ⟨_, scan, run, past⟩⟩
  · change CheckBytecodes.checkLoop 22 (.initial oneKeyCode) = .ok scan at run
    rw [run] at scanned
    injection scanned with scanned
    exact ⟨loaded, accepts, sameCode.trans (congrArg Prod.fst scanned)⟩
  · change CheckBytecodes.checkLoop 22 (.initial oneKeyCode) = .error fault at run
    rw [run] at scanned
    cases scanned
  · change CheckBytecodes.checkLoop 22 (.initial oneKeyCode) = .ok scan at run
    change 21 < scan.bci at past
    rw [run] at scanned
    injection scanned with scanned
    have atEnd : scan.bci = 21 := congrArg Prod.snd scanned
    omega

theorem oneKey_dispatch :
    ∃ starts, Tiles oneKeyCode starts ∧
      ∀ bci ∈ starts, IsSwitch (byteD oneKeyCode bci) →
        ∀ codeBase : Int, codeBase % 4 = 0 → ∀ key : Int,
          ∃ target, DispatchAgrees oneKeyCode oneKey plainWorld starts codeBase bci key target := by
  obtain ⟨loaded, accepts, sameCode⟩ := oneKey_accepted
  exact switch_dispatch_agrees rfl accepts sameCode.symm oneKey_checked.2

end PicoJvm.SwitchDispatch
