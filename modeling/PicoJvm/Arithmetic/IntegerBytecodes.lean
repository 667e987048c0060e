import PicoJvm.Lib.CInteger

/-!
# Arithmetic bytecodes

The bytecodes of the C interpreter that compute with `int` and `long`, on an operand stack of
words, and what Java wants of them. The interpreter leaves the arithmetic to the C compiler, for
which an overflow is undefined.
-/

namespace PicoJvm.Arithmetic

open PicoJvm.Lib

abbrev Jint := BitVec 32

abbrev Jlong := BitVec 64

/-- How a bytecode ends without going on to the next one. -/
inductive Halt
  | stackUnderflow
  | undefined
  | arithmeticException
  deriving DecidableEq, Repr

/-- A step of the interpreter works on the expression stack, whose top comes first. -/
abbrev Interpreter := StateT (List Jint) (Except Halt)

/-! ## The expression stack -/

/-- `POP`. -/
def pop : Interpreter Jint := fun stack =>
  match stack with
  | [] => .error .stackUnderflow
  | value :: rest => .ok (value, rest)

/-- `PUSH`. -/
def push (value : Jint) : Interpreter Unit := fun stack =>
  .ok ((), value :: stack)

/-- `LONG_POP`: the low word lies on top. -/
def longPop : Interpreter Jlong := do
  let low ← pop
  let high ← pop
  return high ++ low

/-- `LONG_PUSH`. -/
def longPush (value : Jlong) : Interpreter Unit := do
  push (value.extractLsb' 32 32)
  push (value.extractLsb' 0 32)

/-- The value of a C expression. -/
def evaluate {value : Type} (expression : Option value) : Interpreter value := fun stack =>
  match expression with
  | none => .error .undefined
  | some result => .ok (result, stack)

/-- `interpreter_throw_ArithmeticException`. -/
def throwArithmeticException : Interpreter Unit :=
  throw .arithmeticException

/-! ## The bytecodes -/

/-- A bytecode that pops two values of type `int` and pushes one. -/
def intBinary (operation : Jint → Jint → Option Jint) : Interpreter Unit := do
  let val2 ← pop
  let val1 ← pop
  push (← evaluate (operation val1 val2))

def longBinary (operation : Jlong → Jlong → Option Jlong) : Interpreter Unit := do
  let val2 ← longPop
  let val1 ← longPop
  longPush (← evaluate (operation val1 val2))

/-- A shift of a `long` by an `int`. -/
def longShift (operation : Jlong → Jint → Option Jlong) : Interpreter Unit := do
  let val2 ← pop
  let val1 ← longPop
  longPush (← evaluate (operation val1 val2))

/-- The value on top is called `val1` here. -/
def iadd : Interpreter Unit := do
  let val1 ← pop
  let val2 ← pop
  push (← evaluate (CInteger.add val1 val2))

def ladd : Interpreter Unit := do
  let val1 ← longPop
  let val2 ← longPop
  longPush (← evaluate (CInteger.add val1 val2))

def isub : Interpreter Unit :=
  intBinary CInteger.sub

def lsub : Interpreter Unit :=
  longBinary CInteger.sub

def imul : Interpreter Unit :=
  intBinary CInteger.mul

def lmul : Interpreter Unit :=
  longBinary CInteger.mul

/-- The smallest value is left alone when it is divided by minus one. -/
def idiv : Interpreter Unit := do
  let val2 ← pop
  let val1 ← pop
  if val2 = 0 then
    throwArithmeticException
  else if val1 ≠ 0x80000000 ∨ val2 ≠ -1 then
    push (← evaluate (CInteger.div val1 val2))
  else
    push val1

def ldiv : Interpreter Unit := do
  let val2 ← longPop
  let val1 ← longPop
  if val2 = 0 then
    throwArithmeticException
  else
    longPush (← evaluate (CInteger.div val1 val2))

def irem : Interpreter Unit := do
  let val2 ← pop
  let val1 ← pop
  if val2 = 0 then
    throwArithmeticException
  else if val1 = 0x80000000 ∧ val2 = -1 then
    push (← evaluate (CInteger.rem val1 1))
  else
    push (← evaluate (CInteger.rem val1 val2))

def lrem : Interpreter Unit := do
  let val2 ← longPop
  let val1 ← longPop
  if val2 = 0 then
    throwArithmeticException
  else
    longPush (← evaluate (CInteger.rem val1 val2))

def ineg : Interpreter Unit := do
  let val ← pop
  push (← evaluate (CInteger.neg val))

def lneg : Interpreter Unit := do
  let val ← longPop
  longPush (← evaluate (CInteger.neg val))

def ishl : Interpreter Unit :=
  intBinary fun val1 val2 => CInteger.shiftLeft val1 (val2 &&& 0x1f).toNat

def lshl : Interpreter Unit :=
  longShift fun val1 val2 => CInteger.shiftLeft val1 (val2 &&& 0x3f).toNat

def ishr : Interpreter Unit :=
  intBinary fun val1 val2 => CInteger.shiftRight val1 (val2 &&& 0x1f).toNat

def lshr : Interpreter Unit :=
  longShift fun val1 val2 => CInteger.shiftRight val1 (val2 &&& 0x3f).toNat

def iushr : Interpreter Unit :=
  intBinary fun val1 val2 => CInteger.unsignedShiftRight val1 (val2 &&& 0x1f).toNat

def lushr : Interpreter Unit :=
  longShift fun val1 val2 => CInteger.unsignedShiftRight val1 (val2 &&& 0x3f).toNat

def lcmp : Interpreter Unit := do
  let val2 ← longPop
  let val1 ← longPop
  push (if val1.toInt < val2.toInt then -1 else if val1 = val2 then 0 else 1)

/-- `jvm_ldiv`, whose callers have checked the divisor. -/
def jvmLdiv (dividend divisor : Jlong) : Option Jlong :=
  CInteger.div dividend divisor

/-- `jvm_lrem`. -/
def jvmLrem (dividend divisor : Jlong) : Option Jlong :=
  CInteger.rem dividend divisor

/-! ## What Java wants -/

/-- The type of an operand. -/
inductive Kind
  | int
  | long
  deriving DecidableEq, Repr

@[reducible] def Kind.bits : Kind → Nat
  | .int => 32
  | .long => 64

/-- A value on the expression stack. -/
def Kind.onStack (kind : Kind) (value : BitVec kind.bits) (rest : List Jint) : List Jint :=
  match kind with
  | .int => value :: rest
  | .long => value.extractLsb' 0 32 :: value.extractLsb' 32 32 :: rest

/-- The push for values of the type. -/
def Kind.push : (kind : Kind) → BitVec kind.bits → Interpreter Unit
  | .int => Arithmetic.push
  | .long => longPush

inductive Operation
  | add
  | sub
  | mul
  | neg
  | div
  | rem
  | shl
  | shr
  | ushr
  | cmp
  deriving DecidableEq, Repr

/-- The last five or six bits of a shift count. -/
def shiftCount (bits : Nat) (right : Int) : Nat :=
  (right % bits).toNat

/-- The result as a number, still to be cut to the size of its type; none is an
`ArithmeticException`. A negation has no right operand. -/
def Operation.javaResult (operation : Operation) (bits : Nat) (left right : Int) : Option Int :=
  match operation with
  | .add => some (left + right)
  | .sub => some (left - right)
  | .mul => some (left * right)
  | .neg => some (-left)
  | .div => if right = 0 then none else some (left.tdiv right)
  | .rem => if right = 0 then none else some (left.tmod right)
  | .shl => some (left * 2 ^ shiftCount bits right)
  | .shr => some (left / 2 ^ shiftCount bits right)
  | .ushr => some (left % 2 ^ bits / 2 ^ shiftCount bits right)
  | .cmp => some (if left < right then -1 else if left = right then 0 else 1)

theorem Operation.javaResult_div
    {right : Int}
    (nonzero : right ≠ 0)
    (bits : Nat) (left : Int) :
    Operation.div.javaResult bits left right = some (left.tdiv right) :=
  if_neg nonzero

theorem Operation.javaResult_rem
    {right : Int}
    (nonzero : right ≠ 0)
    (bits : Nat) (left : Int) :
    Operation.rem.javaResult bits left right = some (left.tmod right) :=
  if_neg nonzero

/-- The bytecodes. -/
inductive Bytecode
  | iadd
  | ladd
  | isub
  | lsub
  | imul
  | lmul
  | idiv
  | ldiv
  | irem
  | lrem
  | ineg
  | lneg
  | ishl
  | lshl
  | ishr
  | lshr
  | iushr
  | lushr
  | lcmp
  deriving DecidableEq, Repr

namespace Bytecode

def interpret : Bytecode → Interpreter Unit
  | .iadd => Arithmetic.iadd
  | .ladd => Arithmetic.ladd
  | .isub => Arithmetic.isub
  | .lsub => Arithmetic.lsub
  | .imul => Arithmetic.imul
  | .lmul => Arithmetic.lmul
  | .idiv => Arithmetic.idiv
  | .ldiv => Arithmetic.ldiv
  | .irem => Arithmetic.irem
  | .lrem => Arithmetic.lrem
  | .ineg => Arithmetic.ineg
  | .lneg => Arithmetic.lneg
  | .ishl => Arithmetic.ishl
  | .lshl => Arithmetic.lshl
  | .ishr => Arithmetic.ishr
  | .lshr => Arithmetic.lshr
  | .iushr => Arithmetic.iushr
  | .lushr => Arithmetic.lushr
  | .lcmp => Arithmetic.lcmp

def operation : Bytecode → Operation
  | .iadd | .ladd => .add
  | .isub | .lsub => .sub
  | .imul | .lmul => .mul
  | .idiv | .ldiv => .div
  | .irem | .lrem => .rem
  | .ineg | .lneg => .neg
  | .ishl | .lshl => .shl
  | .ishr | .lshr => .shr
  | .iushr | .lushr => .ushr
  | .lcmp => .cmp

/-- The type that the bytecode computes with. -/
def kind : Bytecode → Kind
  | .iadd | .isub | .imul | .idiv | .irem | .ineg | .ishl | .ishr | .iushr => .int
  | .ladd | .lsub | .lmul | .ldiv | .lrem | .lneg | .lshl | .lshr | .lushr | .lcmp => .long

/-- The type of the right operand: every shift count is an `int`. -/
def rightKind : Bytecode → Kind
  | .lshl | .lshr | .lushr => .int
  | bytecode => bytecode.kind

def resultKind : Bytecode → Kind
  | .lcmp => .int
  | bytecode => bytecode.kind

/-- The expression stack with the operands on it. -/
def operands (bytecode : Bytecode) (left : BitVec bytecode.kind.bits)
    (right : BitVec bytecode.rightKind.bits) (rest : List Jint) : List Jint :=
  if bytecode.operation = .neg then
    bytecode.kind.onStack left rest
  else
    bytecode.rightKind.onStack right (bytecode.kind.onStack left rest)

/-- The bytecode leaves the Java result on the stack, or throws where Java does. -/
def Meets (bytecode : Bytecode) (left : BitVec bytecode.kind.bits)
    (right : BitVec bytecode.rightKind.bits) (rest : List Jint) : Prop :=
  bytecode.interpret.run (bytecode.operands left right rest) =
    match bytecode.operation.javaResult bytecode.kind.bits left.toInt right.toInt with
    | none => .error .arithmeticException
    | some value =>
        .ok ((), bytecode.resultKind.onStack (BitVec.ofInt bytecode.resultKind.bits value) rest)

/-- The operands for which the C compiler promises anything. -/
def Defined (bytecode : Bytecode) (left right : Int) : Prop :=
  match bytecode with
  | .iadd => CInteger.Representable 32 (left + right)
  | .ladd => CInteger.Representable 64 (left + right)
  | .isub => CInteger.Representable 32 (left - right)
  | .lsub => CInteger.Representable 64 (left - right)
  | .imul => CInteger.Representable 32 (left * right)
  | .lmul => CInteger.Representable 64 (left * right)
  | .ineg => left ≠ -2 ^ 31
  | .lneg => left ≠ -2 ^ 63
  | .ldiv => ¬ (left = -2 ^ 63 ∧ right = -1)
  | .lrem => ¬ (left = -2 ^ 63 ∧ right = -1)
  | .ishl => 0 ≤ left ∧ CInteger.Representable 32 (left * 2 ^ shiftCount 32 right)
  | .lshl => 0 ≤ left ∧ CInteger.Representable 64 (left * 2 ^ shiftCount 64 right)
  | .idiv | .irem | .ishr | .lshr | .iushr | .lushr | .lcmp => True

end Bytecode

/-! ## What the steps do -/

variable {value value' : Type}

theorem words_of_long (value : Jlong) :
    value.extractLsb' 32 32 ++ value.extractLsb' 0 32 = value := by
  rw [BitVec.extractLsb'_append_extractLsb'_eq_extractLsb' (by rfl)]
  exact BitVec.extractLsb'_eq_self

theorem run_bind_of_ok
    {first : Interpreter value} {next : value → Interpreter value'}
    {result : value} {stack rest : List Jint}
    (runs : first.run stack = .ok (result, rest)) :
    (first >>= next).run stack = (next result).run rest := by
  rw [StateT.run_bind, runs]
  rfl

theorem longPop_run (value : Jlong) (rest : List Jint) :
    longPop.run (Kind.long.onStack value rest) = .ok (value, rest) := by
  calc
    longPop.run (Kind.long.onStack value rest) =
        .ok (value.extractLsb' 32 32 ++ value.extractLsb' 0 32, rest) := rfl
    _ = .ok (value, rest) := by rw [words_of_long]

/-- What a bytecode comes to that pushes the value of an expression. -/
def pushed (kind : Kind) (expression : Option (BitVec kind.bits)) (rest : List Jint) :
    Except Halt (Unit × List Jint) :=
  match expression with
  | none => .error .undefined
  | some value => .ok ((), kind.onStack value rest)

theorem onStack_injective
    {kind : Kind} {value value' : BitVec kind.bits} {rest : List Jint}
    (same : kind.onStack value rest = kind.onStack value' rest) :
    value = value' := by
  cases kind with
  | int =>
      exact List.head_eq_of_cons_eq same
  | long =>
      have popped := longPop_run value rest
      rw [same, longPop_run value' rest] at popped
      cases popped
      rfl

theorem pushed_eq_ok_iff
    {kind : Kind} {expression : Option (BitVec kind.bits)} {value : BitVec kind.bits}
    {rest : List Jint} :
    pushed kind expression rest = .ok ((), kind.onStack value rest) ↔
      expression = some value := by
  cases expression with
  | none =>
      simp [pushed]
  | some result =>
      constructor
      · intro same
        have pairs := Except.ok.inj same
        rw [onStack_injective (congrArg Prod.snd pairs)]
      · intro same
        cases same
        rfl

theorem push_evaluated (kind : Kind) (expression : Option (BitVec kind.bits))
    (rest : List Jint) :
    (evaluate expression >>= kind.push).run rest = pushed kind expression rest := by
  cases expression with
  | none =>
      rfl
  | some value =>
      cases kind <;> rfl

theorem intBinary_run (operation : Jint → Jint → Option Jint) (left right : Jint)
    (rest : List Jint) :
    (intBinary operation).run (Kind.int.onStack right (Kind.int.onStack left rest)) =
      pushed .int (operation left right) rest :=
  push_evaluated .int (operation left right) rest

theorem longBinary_run (operation : Jlong → Jlong → Option Jlong) (left right : Jlong)
    (rest : List Jint) :
    (longBinary operation).run (Kind.long.onStack right (Kind.long.onStack left rest)) =
      pushed .long (operation left right) rest := by
  rw [longBinary, run_bind_of_ok (longPop_run right _), run_bind_of_ok (longPop_run left rest)]
  exact push_evaluated .long (operation left right) rest

theorem longShift_run (operation : Jlong → Jint → Option Jlong) (left : Jlong) (right : Jint)
    (rest : List Jint) :
    (longShift operation).run (Kind.int.onStack right (Kind.long.onStack left rest)) =
      pushed .long (operation left right) rest := by
  have popped : pop.run (Kind.int.onStack right (Kind.long.onStack left rest)) =
      .ok (right, Kind.long.onStack left rest) := rfl
  rw [longShift, run_bind_of_ok popped, run_bind_of_ok (longPop_run left rest)]
  exact push_evaluated .long (operation left right) rest

theorem comparison_eq (left right : Jlong) :
    (if left.toInt < right.toInt then -1 else if left = right then 0 else 1 : Jint) =
      BitVec.ofInt 32
        (if left.toInt < right.toInt then -1 else if left.toInt = right.toInt then 0 else 1) := by
  simp only [BitVec.toInt_inj]
  split
  · rfl
  · split <;> rfl

theorem iadd_run (left right : Jint) (rest : List Jint) :
    iadd.run (Kind.int.onStack right (Kind.int.onStack left rest)) =
      pushed .int (CInteger.add left right) rest := by
  rw [CInteger.add_comm]
  exact push_evaluated .int (CInteger.add right left) rest

theorem ineg_run (operand : Jint) (rest : List Jint) :
    ineg.run (Kind.int.onStack operand rest) = pushed .int (CInteger.neg operand) rest :=
  push_evaluated .int (CInteger.neg operand) rest

theorem ladd_run (left right : Jlong) (rest : List Jint) :
    ladd.run (Kind.long.onStack right (Kind.long.onStack left rest)) =
      pushed .long (CInteger.add left right) rest := by
  rw [ladd, run_bind_of_ok (longPop_run right _), run_bind_of_ok (longPop_run left rest),
    CInteger.add_comm left]
  exact push_evaluated .long (CInteger.add right left) rest

theorem lneg_run (operand : Jlong) (rest : List Jint) :
    lneg.run (Kind.long.onStack operand rest) = pushed .long (CInteger.neg operand) rest := by
  rw [lneg, run_bind_of_ok (longPop_run operand rest)]
  exact push_evaluated .long (CInteger.neg operand) rest

theorem lcmp_run (left right : Jlong) (rest : List Jint) :
    lcmp.run (Kind.long.onStack right (Kind.long.onStack left rest)) =
      .ok ((), (if left.toInt < right.toInt then -1 else if left = right then 0 else 1) ::
        rest) := by
  rw [lcmp, run_bind_of_ok (longPop_run right _), run_bind_of_ok (longPop_run left rest)]
  rfl

/-! ## Shift counts -/

theorem intCount (right : Jint) : (right &&& 0x1f).toNat = shiftCount 32 right.toInt := by
  have masked : (right &&& 0x1f).toNat = right.toNat % 32 := by
    rw [BitVec.toNat_and]
    exact Nat.and_two_pow_sub_one_eq_mod right.toNat 5
  have signed := BitVec.toInt_eq_toNat_cond right
  rw [masked, shiftCount]
  split at signed <;> omega

theorem longCount (right : Jint) : (right &&& 0x3f).toNat = shiftCount 64 right.toInt := by
  have masked : (right &&& 0x3f).toNat = right.toNat % 64 := by
    rw [BitVec.toNat_and]
    exact Nat.and_two_pow_sub_one_eq_mod right.toNat 6
  have signed := BitVec.toInt_eq_toNat_cond right
  rw [masked, shiftCount]
  split at signed <;> omega

theorem shiftCount_lt
    {bits : Nat}
    (positive : 0 < bits)
    (right : Int) :
    shiftCount bits right < bits := by
  have upper := Int.emod_lt_of_pos right (b := bits) (by omega)
  rw [shiftCount]
  omega

theorem intShift_run (operation : Jint → Nat → Option Jint) (left right : Jint)
    (rest : List Jint) :
    (intBinary fun val1 val2 => operation val1 (val2 &&& 0x1f).toNat).run
        (Kind.int.onStack right (Kind.int.onStack left rest)) =
      pushed .int (operation left (shiftCount 32 right.toInt)) rest := by
  rw [intBinary_run, intCount]

theorem longCount_run (operation : Jlong → Nat → Option Jlong) (left : Jlong) (right : Jint)
    (rest : List Jint) :
    (longShift fun val1 val2 => operation val1 (val2 &&& 0x3f).toNat).run
        (Kind.int.onStack right (Kind.long.onStack left rest)) =
      pushed .long (operation left (shiftCount 64 right.toInt)) rest := by
  rw [longShift_run, longCount]

/-! ## Division -/

theorem smallest_iff (left right : Jint) :
    (left.toInt = -2 ^ 31 ∧ right.toInt = -1) ↔ left = 0x80000000 ∧ right = -1 := by
  have smallest : left.toInt = -2 ^ 31 ↔ left = 0x80000000 :=
    BitVec.toInt_inj (y := (0x80000000 : Jint))
  have minusOne : right.toInt = -1 ↔ right = -1 :=
    BitVec.toInt_inj (y := (-1 : Jint))
  rw [smallest, minusOne]

theorem idiv_run (left right : Jint) (rest : List Jint) :
    idiv.run (Kind.int.onStack right (Kind.int.onStack left rest)) =
      if right = 0 then .error .arithmeticException else
        pushed .int (some (BitVec.ofInt 32 (left.toInt.tdiv right.toInt))) rest := by
  change (if right = 0 then throwArithmeticException else _ : Interpreter Unit).run rest = _
  split
  · rfl
  · next nonzero =>
      split
      · next guarded =>
          have inside : ¬ (left.toInt = -2 ^ 31 ∧ right.toInt = -1) := by
            rw [smallest_iff]
            tauto
          change (evaluate (CInteger.div left right) >>= Kind.int.push).run rest = _
          rw [push_evaluated .int, (CInteger.div_eq_some_iff nonzero).mpr inside]
      · next unguarded =>
          have both : left = 0x80000000 ∧ right = -1 := by
            tauto
          rw [both.1, both.2]
          rfl

theorem irem_run (left right : Jint) (rest : List Jint) :
    irem.run (Kind.int.onStack right (Kind.int.onStack left rest)) =
      if right = 0 then .error .arithmeticException else
        pushed .int (some (BitVec.ofInt 32 (left.toInt.tmod right.toInt))) rest := by
  change (if right = 0 then throwArithmeticException else _ : Interpreter Unit).run rest = _
  split
  · rfl
  · next nonzero =>
      split
      · next both =>
          rw [both.1, both.2]
          rfl
      · next guarded =>
          have inside : ¬ (left.toInt = -2 ^ 31 ∧ right.toInt = -1) := by
            rw [smallest_iff]
            exact guarded
          change (evaluate (CInteger.rem left right) >>= Kind.int.push).run rest = _
          rw [push_evaluated .int, (CInteger.rem_eq_some_iff nonzero).mpr inside]

theorem ldiv_run (left right : Jlong) (rest : List Jint) :
    ldiv.run (Kind.long.onStack right (Kind.long.onStack left rest)) =
      if right = 0 then .error .arithmeticException else
        pushed .long (CInteger.div left right) rest := by
  rw [ldiv, run_bind_of_ok (longPop_run right _), run_bind_of_ok (longPop_run left rest)]
  split
  · rfl
  · exact push_evaluated .long (CInteger.div left right) rest

theorem lrem_run (left right : Jlong) (rest : List Jint) :
    lrem.run (Kind.long.onStack right (Kind.long.onStack left rest)) =
      if right = 0 then .error .arithmeticException else
        pushed .long (CInteger.rem left right) rest := by
  rw [lrem, run_bind_of_ok (longPop_run right _), run_bind_of_ok (longPop_run left rest)]
  split
  · rfl
  · exact push_evaluated .long (CInteger.rem left right) rest

/-! ## Where the bytecodes meet Java -/

namespace Bytecode

theorem meets_iff_of_run
    (bytecode : Bytecode) (left : BitVec bytecode.kind.bits)
    (right : BitVec bytecode.rightKind.bits) {rest : List Jint}
    {expression : Option (BitVec bytecode.resultKind.bits)} {value : Int}
    (runs : bytecode.interpret.run (bytecode.operands left right rest) =
      pushed bytecode.resultKind expression rest)
    (java : bytecode.operation.javaResult bytecode.kind.bits left.toInt right.toInt =
      some value) :
    bytecode.Meets left right rest ↔
      expression = some (BitVec.ofInt bytecode.resultKind.bits value) := by
  rw [Meets, runs, java]
  exact pushed_eq_ok_iff

theorem meets_of_throws
    (bytecode : Bytecode) (left : BitVec bytecode.kind.bits)
    (right : BitVec bytecode.rightKind.bits) {rest : List Jint}
    (runs : bytecode.interpret.run (bytecode.operands left right rest) =
      .error .arithmeticException)
    (java : bytecode.operation.javaResult bytecode.kind.bits left.toInt right.toInt = none) :
    bytecode.Meets left right rest := by
  rw [Meets, runs, java]

theorem meets_iff_defined (bytecode : Bytecode) (left : BitVec bytecode.kind.bits)
    (right : BitVec bytecode.rightKind.bits) (rest : List Jint) :
    bytecode.Meets left right rest ↔ bytecode.Defined left.toInt right.toInt := by
  cases bytecode with
  | iadd =>
      apply (meets_iff_of_run .iadd left right (iadd_run left right rest) rfl).trans
      exact CInteger.represent_eq_iff _
  | ladd =>
      apply (meets_iff_of_run .ladd left right (ladd_run left right rest) rfl).trans
      exact CInteger.represent_eq_iff _
  | isub =>
      apply (meets_iff_of_run .isub left right (intBinary_run CInteger.sub left right rest) rfl).trans
      exact CInteger.represent_eq_iff _
  | lsub =>
      apply (meets_iff_of_run .lsub left right (longBinary_run CInteger.sub left right rest) rfl).trans
      exact CInteger.represent_eq_iff _
  | imul =>
      apply (meets_iff_of_run .imul left right (intBinary_run CInteger.mul left right rest) rfl).trans
      exact CInteger.represent_eq_iff _
  | lmul =>
      apply (meets_iff_of_run .lmul left right (longBinary_run CInteger.mul left right rest) rfl).trans
      exact CInteger.represent_eq_iff _
  | ineg =>
      apply (meets_iff_of_run .ineg left right (ineg_run left rest) rfl).trans
      exact CInteger.neg_eq_some_iff
  | lneg =>
      apply (meets_iff_of_run .lneg left right (lneg_run left rest) rfl).trans
      exact CInteger.neg_eq_some_iff
  | idiv =>
      apply iff_of_true _ trivial
      rcases eq_or_ne right 0 with rfl | nonzero
      · exact meets_of_throws .idiv left 0 rfl rfl
      · have runs := (idiv_run left right rest).trans (if_neg nonzero)
        have java := Operation.javaResult_div (CInteger.nonzero_toInt nonzero) 32 left.toInt
        exact (meets_iff_of_run .idiv left right runs java).mpr rfl
  | ldiv =>
      rcases eq_or_ne right 0 with rfl | nonzero
      · exact iff_of_true (meets_of_throws .ldiv left 0 rfl rfl) fun both => by cases both.2
      · have runs := (ldiv_run left right rest).trans (if_neg nonzero)
        have java := Operation.javaResult_div (CInteger.nonzero_toInt nonzero) 64 left.toInt
        apply (meets_iff_of_run .ldiv left right runs java).trans
        exact CInteger.div_eq_some_iff nonzero
  | irem =>
      apply iff_of_true _ trivial
      rcases eq_or_ne right 0 with rfl | nonzero
      · exact meets_of_throws .irem left 0 rfl rfl
      · have runs := (irem_run left right rest).trans (if_neg nonzero)
        have java := Operation.javaResult_rem (CInteger.nonzero_toInt nonzero) 32 left.toInt
        exact (meets_iff_of_run .irem left right runs java).mpr rfl
  | lrem =>
      rcases eq_or_ne right 0 with rfl | nonzero
      · exact iff_of_true (meets_of_throws .lrem left 0 rfl rfl) fun both => by cases both.2
      · have runs := (lrem_run left right rest).trans (if_neg nonzero)
        have java := Operation.javaResult_rem (CInteger.nonzero_toInt nonzero) 64 left.toInt
        apply (meets_iff_of_run .lrem left right runs java).trans
        exact CInteger.rem_eq_some_iff nonzero
  | ishl =>
      apply (meets_iff_of_run .ishl left right (intShift_run _ left right rest) rfl).trans
      exact CInteger.shiftLeft_eq_some_iff (shiftCount_lt (by decide) _)
  | lshl =>
      apply (meets_iff_of_run .lshl left right (longCount_run _ left right rest) rfl).trans
      exact CInteger.shiftLeft_eq_some_iff (shiftCount_lt (by decide) _)
  | ishr =>
      apply (meets_iff_of_run .ishr left right (intShift_run _ left right rest) rfl).trans
      exact iff_of_true (CInteger.shiftRight_eq (shiftCount_lt (by decide) _)) trivial
  | lshr =>
      apply (meets_iff_of_run .lshr left right (longCount_run _ left right rest) rfl).trans
      exact iff_of_true (CInteger.shiftRight_eq (shiftCount_lt (by decide) _)) trivial
  | iushr =>
      apply (meets_iff_of_run .iushr left right (intShift_run _ left right rest) rfl).trans
      exact iff_of_true (CInteger.unsignedShiftRight_eq (shiftCount_lt (by decide) _)) trivial
  | lushr =>
      apply (meets_iff_of_run .lushr left right (longCount_run _ left right rest) rfl).trans
      exact iff_of_true (CInteger.unsignedShiftRight_eq (shiftCount_lt (by decide) _)) trivial
  | lcmp =>
      apply iff_of_true _ trivial
      apply (lcmp_run left right rest).trans
      rw [comparison_eq left right]
      rfl

end Bytecode

/-- The helpers of the VM for values of type `long`, whose callers have checked the divisor. -/
structure HelpersMeet (dividend divisor : Jlong) : Prop where
  quotient : divisor ≠ 0 →
    jvmLdiv dividend divisor = some (BitVec.ofInt 64 (dividend.toInt.tdiv divisor.toInt))
  remainder : divisor ≠ 0 →
    jvmLrem dividend divisor = some (BitVec.ofInt 64 (dividend.toInt.tmod divisor.toInt))

theorem helpersMeet_iff (dividend divisor : Jlong) :
    HelpersMeet dividend divisor ↔ ¬ (dividend.toInt = -2 ^ 63 ∧ divisor.toInt = -1) := by
  rcases eq_or_ne divisor 0 with rfl | nonzero
  · constructor
    · intro _ both
      cases both.2
    · intro _
      constructor <;> exact fun nonzero => absurd rfl nonzero
  · constructor
    · intro meets
      exact (CInteger.div_eq_some_iff nonzero).mp (meets.quotient nonzero)
    · intro defined
      constructor
      · intro _
        exact (CInteger.div_eq_some_iff nonzero).mpr defined
      · intro _
        exact (CInteger.rem_eq_some_iff nonzero).mpr defined

/-- The bytecodes and the helpers compute what Java wants just where the C compiler promises a
result. -/
theorem arithmetic_meets_iff
    (bytecode : Bytecode)
    (left : BitVec bytecode.kind.bits)
    (right : BitVec bytecode.rightKind.bits)
    (rest : List Jint)
    (dividend divisor : Jlong) :
    (bytecode.Meets left right rest ↔ bytecode.Defined left.toInt right.toInt) ∧
      (HelpersMeet dividend divisor ↔ ¬ (dividend.toInt = -2 ^ 63 ∧ divisor.toInt = -1)) :=
  ⟨bytecode.meets_iff_defined left right rest, helpersMeet_iff dividend divisor⟩

/-- The smallest `long` divided by minus one, which the `int` division guards against. -/
theorem ldiv_smallest_undefined :
    ¬ Bytecode.Meets .ldiv (BitVec.intMin 64) (-1 : Jlong) [] := by
  intro meets
  have smallest : (BitVec.intMin 64).toInt = -2 ^ 63 := by
    decide
  have defined := (Bytecode.meets_iff_defined .ldiv (BitVec.intMin 64) (-1 : Jlong) []).mp meets
  exact defined ⟨smallest, rfl⟩

end PicoJvm.Arithmetic
