import PicoJvm.Lib.Fallible
import PicoJvm.Bytecode.Bytecodes
import PicoJvm.Bytecode.CodeBytes

/-!
# `Method::check_bytecodes` and the instruction starts of the verifier

The scan that a method's code array goes through when its class is loaded, with
its fast path for fixed-length bytecodes and its slow path for the rest, and the
second scan with which the verifier finds where instructions start.
-/

namespace PicoJvm.CheckBytecodes

open PicoJvm.Bytecodes
open PicoJvm.CodeBytes
open PicoJvm.Lib.Fallible

/-- What the scan reads and writes of a method. The class file parser admits at
most 65535 bytes of code. -/
structure Method where
  code : Code
  codeSizeFits : code.length < 65536
  maxExecutionStackCount : Nat
  isNativeOrAbstract : Bool
  hasMonitorBytecodes : Bool
  hasInvokeBytecodes : Bool

/-! ## Lengths that depend on operands -/

/-- `Bytecodes::wide_length_for(method, bci, code)`. The switch operands are
read in native order. -/
def wideLengthForAt (code : Code) (bci opcode : Nat) : Except Fault Int :=
  if opcode = tableswitch then do
    let aligned := alignSizeUp (bci + 1)
    let lo ← getNativeAlignedInt code (aligned + wordSize)
    let hi ← getNativeAlignedInt code (aligned + 2 * wordSize)
    return wrapInt (aligned + (3 + toJint hi - toJint lo + 1) * wordSize - bci)
  else if opcode = lookupswitch then do
    let aligned := alignSizeUp (bci + 1)
    let npairs ← getNativeAlignedInt code (aligned + wordSize)
    return wrapInt (aligned + (2 + 2 * toJint npairs) * wordSize - bci)
  else if opcode = initStaticArray then do
    let sizeShift ← byteAt code (bci + 1)
    let countLow ← byteAt code (bci + 2)
    let countHigh ← byteAt code (bci + 3)
    return wrapInt (4 + 2 ^ sizeShift * (countLow + countHigh * 256))
  else if opcode = wide then do
    let widened ← byteAt code (bci + 1)
    return wideLengthFor widened
  else
    .ok 0

/-- `Bytecodes::length_for(method, bci)`. -/
def lengthForAt (code : Code) (bci : Nat) : Except Fault Int := do
  let opcode ← byteAt code bci
  if lengthFor opcode ≠ 0 then
    .ok (lengthFor opcode)
  else
    wideLengthForAt code bci opcode

/-! ## The scan -/

/-- The locals of the scan. `bcptr` counts from `code_base()`; only the slow
path brings `bci` up to date with it. -/
structure Scan where
  code : Code
  bci : Nat
  bcptr : Nat
  numlocks : Nat
  hasMonitorBytecodes : Bool
  hasInvokeBytecodes : Bool

/-- The loop that insists on zero bytes between a switch and its operands. -/
def checkPadding (code : Code) : Nat → Nat → Except Fault Unit
  | 0, _ => .ok ()
  | count + 1, offset => do
      let padding ← byteAt code offset
      if padding ≠ 0 then
        .error .illegalCode
      else
        checkPadding code count (offset + 1)

/-- The number of words a switch claims to have, or the error its signed counts
lead to. -/
def switchFields (code : Code) (opcode aligned : Nat) : Except Fault Int :=
  if opcode = tableswitch then
    if aligned + 3 * wordSize > code.length then
      .error .illegalCode
    else do
      let rawLo ← getNativeAlignedInt code (aligned + wordSize)
      let rawHi ← getNativeAlignedInt code (aligned + 2 * wordSize)
      let hi := toJint (swapU4 rawHi)
      let lo := toJint (swapU4 rawLo)
      if lo > hi ∨ wrapInt (hi - lo) < 0 then
        .error .illegalCode
      else
        .ok (wrapInt (3 + hi - lo + 1))
  else do
    let rawNpairs ← getNativeAlignedInt code (aligned + wordSize)
    let npairs := toJint (swapU4 rawNpairs)
    if npairs < 0 ∨ wrapInt (2 * npairs) < 0 then
      .error .illegalCode
    else
      .ok (wrapInt (2 + 2 * npairs))

/-- The case of `tableswitch` and `lookupswitch`: checks the operands and puts
them in native order. -/
def checkSwitch (code : Code) (opcode bci : Nat) : Except Fault Code :=
  let aligned := alignSizeUp (bci + 1)
  if aligned + 2 * wordSize > code.length then
    .error .illegalCode
  else do
    checkPadding code (aligned - (bci + 1)) (bci + 1)
    let fields ← switchFields code opcode aligned
    let last := wrapInt (aligned + fields * wordSize)
    if last ≥ code.length ∨ fields < 0 ∨ fields > code.length then
      .error .illegalCode
    else
      swapWords fields.toNat code aligned

/-- The bytecode widened by `wide`. -/
def checkWide (scan : Scan) (bci : Nat) : Except Fault Scan :=
  if bci + 1 ≥ scan.code.length then
    .error .illegalCode
  else do
    let widened ← byteAt scan.code (bci + 1)
    if isDefined widened = false then
      .error .illegalCode
    else if wideLengthFor widened = 0 then
      .error .illegalWideCode
    else
      .ok { scan with
        bci := bci + wideLengthFor widened
        bcptr := scan.bcptr + wideLengthFor widened }

/-- What the inner `switch` of the source does to the code. -/
def checkOperands (code : Code) (opcode bci : Nat) : Except Fault Code :=
  if opcode = tableswitch ∨ opcode = lookupswitch then
    checkSwitch code opcode bci
  else
    .ok code

/-- The other bytecodes of the slow path: the inner `switch`, then the length. -/
def checkOther (scan : Scan) (opcode bci : Nat) : Except Fault Scan := do
  let code ← checkOperands scan.code opcode bci
  let length ← lengthForAt code bci
  if length = -1 then
    .error .illegalCode
  else
    .ok {
      code := code
      bci := bci + length.toNat
      bcptr := scan.bcptr + length.toNat
      numlocks := if opcode = monitorenter then scan.numlocks + 1 else scan.numlocks
      hasMonitorBytecodes :=
        scan.hasMonitorBytecodes || decide (opcode = monitorenter ∨ opcode = monitorexit)
      hasInvokeBytecodes :=
        scan.hasInvokeBytecodes ||
          decide (invokevirtual ≤ opcode ∧ opcode ≤ invokeinterface) }

/-- One round of the loop. The fast path leaves `bci` as it is; the slow path
sets it from `bcptr`. -/
def checkStep (scan : Scan) : Except Fault Scan := do
  let opcode ← byteAt scan.code scan.bcptr
  if opcode < tableswitch then
    if lengthFor opcode < 0 then
      .error .illegalCode
    else
      .ok { scan with bcptr := scan.bcptr + (lengthFor opcode).toNat }
  else if opcode ≥ breakpoint ∨ isDefined opcode = false then
    .error .illegalCode
  else if opcode = wide then
    checkWide scan scan.bcptr
  else
    checkOther scan opcode scan.bcptr

/-- The loop `for (bci = 0; bcptr < bcend;)`. -/
def checkLoop : Nat → Scan → Except Fault Scan
  | fuel, scan =>
      if scan.bcptr < scan.code.length then
        match fuel with
        | 0 => .error .outOfFuel
        | fuel + 1 => do
            let scan ← checkStep scan
            checkLoop fuel scan
      else
        .ok scan

/-! ## The scan keeps the size of the code -/

theorem swapWords_length
    (words : Nat) {code code' : Code} {offset : Nat}
    (run : swapWords words code offset = .ok code') :
    code'.length = code.length := by
  induction words generalizing code offset with
  | zero =>
      cases run
      rfl
  | succ words inductionHypothesis =>
      obtain ⟨old, _, rest⟩ := bind_eq_ok_iff.mp run
      rw [inductionHypothesis rest, putNativeAlignedInt_length]

theorem checkSwitch_length
    {code code' : Code} {opcode bci : Nat}
    (run : checkSwitch code opcode bci = .ok code') :
    code'.length = code.length := by
  obtain ⟨_, body⟩ := guarded_eq_ok_iff.mp run
  obtain ⟨_, _, body⟩ := bind_eq_ok_iff.mp body
  obtain ⟨fields, _, body⟩ := bind_eq_ok_iff.mp body
  exact swapWords_length _ (guarded_eq_ok_iff.mp body).2

theorem checkWide_length
    {scan scan' : Scan} {bci : Nat}
    (run : checkWide scan bci = .ok scan') :
    scan'.code.length = scan.code.length := by
  obtain ⟨_, body⟩ := guarded_eq_ok_iff.mp run
  obtain ⟨widened, _, body⟩ := bind_eq_ok_iff.mp body
  obtain ⟨_, body⟩ := guarded_eq_ok_iff.mp body
  cases (guarded_eq_ok_iff.mp body).2
  rfl

theorem checkOther_length
    {scan scan' : Scan} {opcode bci : Nat}
    (run : checkOther scan opcode bci = .ok scan') :
    scan'.code.length = scan.code.length := by
  obtain ⟨code, switched, body⟩ := bind_eq_ok_iff.mp run
  obtain ⟨length, _, body⟩ := bind_eq_ok_iff.mp body
  cases (guarded_eq_ok_iff.mp body).2
  unfold checkOperands at switched
  split at switched
  · exact checkSwitch_length switched
  · cases switched
    rfl

theorem checkStep_length
    {scan scan' : Scan}
    (run : checkStep scan = .ok scan') :
    scan'.code.length = scan.code.length := by
  obtain ⟨opcode, _, body⟩ := bind_eq_ok_iff.mp run
  split at body
  · cases (guarded_eq_ok_iff.mp body).2
    rfl
  · obtain ⟨_, body⟩ := guarded_eq_ok_iff.mp body
    split at body
    · exact checkWide_length body
    · exact checkOther_length body

theorem checkLoop_length
    (fuel : Nat) {scan scan' : Scan}
    (run : checkLoop fuel scan = .ok scan') :
    scan'.code.length = scan.code.length := by
  induction fuel generalizing scan with
  | zero =>
      unfold checkLoop at run
      cases (guarded_eq_ok_iff.mp run).2
      rfl
  | succ fuel inductionHypothesis =>
      unfold checkLoop at run
      split at run
      · obtain ⟨middle, head, rest⟩ := bind_eq_ok_iff.mp run
        rw [inductionHypothesis rest, checkStep_length head]
      · cases run
        rfl

/-! ## The whole check -/

/-- How `check_bytecodes` ends. A method whose frame would be too large for its
monitors has had its code accepted and rewritten before the error is thrown. -/
inductive Outcome
  | accepted (method : Method)
  | outOfMemory (method : Method)
  | fault (fault : Fault)

/-- `((BytesPerWord + StackLock::size()) / sizeof(jobject))`. -/
def lockWords : Nat := 7

/-- What follows the loop. -/
def finishCheck (method : Method) (scan : Scan) : Outcome :=
  let demand := scan.numlocks * lockWords + method.maxExecutionStackCount
  let hasInvoke := method.hasInvokeBytecodes || scan.hasInvokeBytecodes
  if scan.hasMonitorBytecodes then
    if demand > 0xffff then
      .outOfMemory method
    else
      .accepted { method with
        maxExecutionStackCount := demand
        hasMonitorBytecodes := true
        hasInvokeBytecodes := hasInvoke }
  else
    .accepted { method with hasInvokeBytecodes := hasInvoke }

/-- The locals the scan starts with. -/
def Scan.initial (code : Code) : Scan :=
  ⟨code, 0, 0, 0, false, false⟩

/-- `Method::check_bytecodes`. -/
def checkBytecodes (method : Method) : Outcome :=
  if method.isNativeOrAbstract then
    .accepted method
  else
    match run : checkLoop (method.code.length + 1) (.initial method.code) with
    | .error fault => .fault fault
    | .ok scan =>
        if scan.bci > method.code.length then
          .fault .illegalCode
        else
          finishCheck
            { method with
              code := scan.code
              codeSizeFits := by
                rw [checkLoop_length _ run]
                exact method.codeSizeFits }
            scan

/-! ## Instruction starts -/

/-- The marks `GetInstructionStarts` writes, one per byte of code. -/
abbrev Starts := List Nat

/-- The mark of a start; that of `new` carries a second bit. -/
def startMark (opcode : Nat) : Nat :=
  if opcode = newObject then 1 ||| 2 else 1

/-- The loop of `GetInstructionStarts::run`. The fault for a bad length stands
for `ve_bad_instr`. -/
def startsLoop (code : Code) : Nat → Nat → Starts → Except Fault (Nat × Starts)
  | fuel, bci, marks =>
      if bci < code.length then
        match fuel with
        | 0 => .error .outOfFuel
        | fuel + 1 => do
            let opcode ← byteAt code bci
            let marks := marks.set bci (startMark opcode)
            let simpleLength := lengthFor opcode
            if simpleLength > 0 then
              startsLoop code fuel (bci + simpleLength.toNat) marks
            else if simpleLength = 0 then
              let wideLength ← wideLengthForAt code bci opcode
              if wideLength > 0 then
                startsLoop code fuel (bci + wideLength.toNat) marks
              else
                .error .illegalCode
            else
              .error .illegalCode
      else
        .ok (bci, marks)

/-- `GetInstructionStarts::run`. -/
def getInstructionStarts (code : Code) : Except Fault Starts := do
  let (bci, marks) ← startsLoop code (code.length + 1) 0 (List.replicate code.length 0)
  if bci > code.length then
    .error .illegalCode
  else
    .ok marks

end PicoJvm.CheckBytecodes
