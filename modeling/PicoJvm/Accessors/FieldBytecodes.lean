import PicoJvm.Accessors.FastAccessor

/-!
# Calling an accessor

The bytecodes of an accessor in the interpreter, the entries that stand for them, and the calls
of both. A run of the bytecodes may be caught in a handler of the method and never end.
-/

namespace PicoJvm.Accessors

open PicoJvm.Execution (Exn TableEntry ThrowingMethod exceptionHandlerBciFor)
open PicoJvm.Signatures (BasicType)

/-! ## The bytecodes -/

/-- `compute_rewrite_bytecode` for a `getfield`: the distance from `fast_bgetfield`. -/
def rewriteOffset : BasicType → Nat
  | .tBoolean => 0
  | .tChar => 7
  | .tFloat => 4
  | .tDouble => 5
  | .tByte => 0
  | .tShort => 1
  | .tInt => 2
  | .tLong => 3
  | .tObject => 6
  | .tArray => 6
  | .tVoid => 0xff
  | .tIllegal => 0xff

/-- `byte_size_for`. -/
def byteSizeFor : BasicType → Nat
  | .tBoolean => 1
  | .tChar => 2
  | .tFloat => 4
  | .tDouble => 8
  | .tByte => 1
  | .tShort => 2
  | .tInt => 4
  | .tLong => 8
  | .tObject => 4
  | .tArray => 4
  | .tVoid => 0
  | .tIllegal => 0

/-- `_rewrite_field_bytecode`: the bytes of a `getfield` from a place on. -/
def rewriteFieldBytecode (code : List Nat) (bci : Nat) (type : BasicType) (offset : Nat) :
    List Nat :=
  let offset := if 4 ≤ byteSizeFor type then offset / 4 else offset
  ((code.set bci (218 + rewriteOffset type)).set (bci + 1) (offset / 256 % 256)).set (bci + 2)
    (offset % 256)

/-- What the `getfield` bytecodes from `fast_bgetfield` on push, and whether their operand counts
words. -/
def fastGetfield : Nat → Option (FieldRead × Bool)
  | 218 => some (.getbyte, false)
  | 219 => some (.getshort, false)
  | 220 => some (.getint, true)
  | 221 => some (.getlong, true)
  | 222 => some (.getfloat, true)
  | 223 => some (.getdouble, true)
  | 224 => some (.getint, true)
  | 225 => some (.getchar, false)
  | _ => none

/-- The words that a return takes from the stack. -/
def returnWords : Nat → Option Nat
  | 172 => some 1
  | 173 => some 2
  | 174 => some 1
  | 175 => some 2
  | 176 => some 1
  | _ => none

/-- What comes of a call: words for the caller, or an exception. -/
inductive Outcome
  | returned (words : List Word)
  | thrown (exception : Exn)
  deriving DecidableEq, Repr

/-- A frame of the interpreter, with the bytes of its method and the constants. -/
structure Frame where
  code : List Nat
  constants : ConstantPool
  bci : Nat
  stack : List Word

inductive Step
  | next (frame : Frame)
  | done (outcome : Outcome)
  /-- A bytecode that is none of an accessor's. -/
  | stuck

/-- The search for a handler of the method. -/
def handlerFor (machine : Machine) (table : List TableEntry) (exception : Exn) (bci : Nat) :
    Except Exn (Option Nat) :=
  exceptionHandlerBciFor machine.isSubtypeOf ⟨table, false, machine.klassAt⟩ exception.klass bci
    table

/-- An exception in a frame: its handler gets it on an empty stack, or the frame is left. -/
def raise (machine : Machine) (table : List TableEntry) (exception : Exn) (frame : Frame) : Step :=
  match handlerFor machine table exception frame.bci with
  | .ok (some handler) =>
      .next { frame with bci := handler, stack := [BitVec.ofNat 32 exception.object] }
  | .ok none => .done (.thrown exception)
  | .error raised => .done (.thrown raised)

/-- One bytecode of a method whose parameter is one word. -/
def step (machine : Machine) (table : List TableEntry) (parameter : Word) (frame : Frame) :
    Step :=
  let bytecode := frame.code.getD frame.bci 0
  let operand := 256 * frame.code.getD (frame.bci + 1) 0 + frame.code.getD (frame.bci + 2) 0
  if bytecode = 42 then
    .next { frame with bci := frame.bci + 1, stack := parameter :: frame.stack }
  else if bytecode = 180 then
    match fieldTypeAt machine true false operand frame.constants with
    | (.error raised, constants) => raise machine table raised { frame with constants }
    | (.ok (type, offset), constants) =>
        .next { frame with
          code := rewriteFieldBytecode frame.code frame.bci type offset
          constants }
  else
    match fastGetfield bytecode, returnWords bytecode with
    | some (read, countsWords), _ =>
        match frame.stack with
        | [] => .stuck
        | object :: stack =>
            if object = 0 then
              raise machine table machine.nullPointerException { frame with stack }
            else
              let offset := if countsWords then operand * 4 else operand
              .next { frame with
                bci := frame.bci + 3
                stack := read.push machine.memory (object.toNat + offset) ++ stack }
    | none, some words => .done (.returned (frame.stack.take words))
    | none, none => .stuck

/-- A run of so many bytecodes at most. -/
def run (machine : Machine) (table : List TableEntry) (parameter : Word) :
    Nat → Frame → Option Outcome
  | 0, _ => none
  | fuel + 1, frame =>
      match step machine table parameter frame with
      | .next frame => run machine table parameter fuel frame
      | .done outcome => some outcome
      | .stuck => none

/-! ## Calls -/

/-- A method is entered with a parameter, and something comes of it. -/
abbrev Entering := Word → Outcome → Prop

/-- The bytecodes of a method, with the constants as they are. -/
def Interprets (machine : Machine) (method : Method) (constants : ConstantPool) : Entering :=
  fun parameter outcome =>
    ∃ fuel, run machine method.exceptionTable parameter fuel ⟨method.code, constants, 0, []⟩ =
      some outcome

/-- A `shared_fast_get` accessor; only a static one checks for null. -/
def fastAccess (machine : Machine) (read : FieldRead) (isStatic : Bool) (offset : Nat)
    (parameter : Word) : Outcome :=
  if isStatic && parameter == 0 then
    .thrown machine.nullPointerException
  else
    .returned (read.push machine.memory (parameter.toNat + offset))

/-- The entry of a converted method. -/
def Accesses (machine : Machine) (method : Method) : Entering :=
  fun parameter outcome =>
    match method.executionEntry with
    | .fastAccessor read isStatic =>
        outcome = fastAccess machine read isStatic method.fastAccessorOffset parameter
    | _ => False

/-- A call: for a method that is not static the caller checks the receiver first. -/
def Calls (machine : Machine) (isStatic : Bool) (enter : Entering) : Entering :=
  fun parameter outcome =>
    if isStatic = false ∧ parameter = 0 then
      outcome = .thrown machine.nullPointerException
    else
      enter parameter outcome

/-- The entry of a converted method does what the bytecodes do, for every call. -/
def ActsAlike (machine : Machine) (method converted : Method) (constants : ConstantPool) : Prop :=
  ∀ parameter outcome,
    Calls machine method.isStatic (Accesses machine converted) parameter outcome ↔
      Calls machine method.isStatic (Interprets machine method constants) parameter outcome

end PicoJvm.Accessors
