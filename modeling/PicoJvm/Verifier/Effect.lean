import PicoJvm.Verifier.Moves

/-!
# The effect of an instruction on words

What an instruction takes from the stack, what it demands of it, and where the
words it leaves come from. The table speaks of words only, so the verifier's
slots, the machine's values and the tags of the stack-map generator can all be
read against it.
-/

namespace PicoJvm.Verifier

open PicoJvm.Lib.Fallible

/-! ## Demands and sources -/

/-- What the specification of an instruction demands of a word it takes. -/
inductive Demand
  /-- Nothing that concerns initialisation. -/
  | any
  /-- An initialised object, or null. -/
  | initialised
  /-- As before, but `this` may still be under construction. -/
  | initialisedOrThis
  deriving DecidableEq, Repr

/-- Where a word that an instruction leaves comes from. -/
inductive Source
  /-- A word it took, counted from the top of the stack. -/
  | operand (position : Nat)
  /-- An element of the array among the words it took. -/
  | element (position : Nat)
  /-- The reference in a local. -/
  | reference (index : Nat)
  /-- A word of a primitive value in a local. -/
  | word (index : Nat) (tag : Tag)
  /-- A new value. -/
  | made (tag : Tag)
  deriving DecidableEq, Repr

/-- The words an instruction takes, and those it puts in their place; both are
top first. -/
structure StackEffect where
  demands : List Demand
  sources : List Source
  deriving DecidableEq, Repr

/-! ## The table -/

/-- Words nothing is demanded of. -/
def anyWords (count : Nat) : List Demand :=
  List.replicate count .any

def PrimitiveType.sources (type : PrimitiveType) : List Source :=
  type.tags.map .made

def FieldType.demands : FieldType → List Demand
  | .primitive type => anyWords type.words
  | .reference _ => [.initialised]

def FieldType.sources : FieldType → List Source
  | .primitive type => type.sources
  | .reference _ => [.made .object]

/-- The arguments of a call; the last one is on top. -/
def Signature.demands (signature : Signature) : List Demand :=
  (signature.parameters.flatMap FieldType.demands).reverse

def Signature.resultSources (signature : Signature) : List Source :=
  (signature.returnType.map FieldType.sources).getD []

/-- The owner of a field. A field of the class itself may be set before `this` is
initialised. -/
def ownerDemand (context : Context) (isPut : Bool) (holder : ClassName) (name : String)
    (type : FieldType) : Demand :=
  if isPut ∧ context.world.holderName = holder ∧ context.world.declaresField name type then
    .initialisedOrThis
  else
    .initialised

/-- Accesses of fields. -/
def fieldEffect (context : Context) (index : Nat) (isStatic isPut : Bool) : StackEffect :=
  match context.method.constants[index]? with
  | some (.field holder name type) =>
      { demands :=
          (if isPut then type.demands else []) ++
            if isStatic then [] else [ownerDemand context isPut holder name type]
        sources := if isPut then [] else type.sources }
  | _ => ⟨[], []⟩

/-- Calls. Nothing is demanded here of the receiver of `<init>`. -/
def invokeEffect (context : Context) (opcode : InvokeCode) (index : Nat) : StackEffect :=
  match context.method.constants[index]? with
  | some (.method _ name signature) | some (.interfaceMethod _ name signature) =>
      { demands :=
          signature.demands ++
            if opcode = .static then []
            else if name = objectInitializerName then [.any]
            else [.initialised]
        sources := signature.resultSources }
  | _ => ⟨[], []⟩

/-- What an instruction does to the stack. -/
def stackEffect (context : Context) : Instruction → StackEffect
  | .pushInt => ⟨[], PrimitiveType.int.sources⟩
  | .pushLong => ⟨[], PrimitiveType.long.sources⟩
  | .pushFloat => ⟨[], PrimitiveType.float.sources⟩
  | .pushDouble => ⟨[], PrimitiveType.double.sources⟩
  | .pushObj isNull => ⟨[], [.made (if isNull then .null else .object)]⟩
  | .loadLocal .object index => ⟨[], [.reference index]⟩
  | .loadLocal (.primitive type) index =>
      ⟨[], (type.tags.zipIdx).map fun (tag, place) =>
        .word (index + (type.words - 1 - place)) tag⟩
  | .storeLocal kind _ => ⟨anyWords kind.words, []⟩
  | .incrementLocalInt _ => ⟨[], []⟩
  | .arrayLength => ⟨[.initialised], PrimitiveType.int.sources⟩
  | .loadArray .object => ⟨[.any, .initialised], [.element 1]⟩
  | .loadArray (.primitive type) => ⟨[.any, .initialised], type.sources⟩
  | .storeArray .object => ⟨[.initialised, .any, .initialised], []⟩
  | .storeArray (.primitive type) => ⟨anyWords type.words ++ [.any, .initialised], []⟩
  | .nop => ⟨[], []⟩
  | .pop => ⟨anyWords 1, []⟩
  | .pop2 => ⟨anyWords 2, []⟩
  | .dup => ⟨anyWords 1, [.operand 0, .operand 0]⟩
  | .dup2 => ⟨anyWords 2, [.operand 0, .operand 1, .operand 0, .operand 1]⟩
  | .dupX1 => ⟨anyWords 2, [.operand 0, .operand 1, .operand 0]⟩
  | .dup2X1 => ⟨anyWords 3, [.operand 0, .operand 1, .operand 2, .operand 0, .operand 1]⟩
  | .dupX2 => ⟨anyWords 3, [.operand 0, .operand 1, .operand 2, .operand 0]⟩
  | .dup2X2 =>
      ⟨anyWords 4,
        [.operand 0, .operand 1, .operand 2, .operand 3, .operand 0, .operand 1]⟩
  | .swap => ⟨anyWords 2, [.operand 1, .operand 0]⟩
  | .neg type => ⟨anyWords type.words, type.sources⟩
  | .binary type op =>
      ⟨anyWords (shiftedType type op).words ++ anyWords type.words, type.sources⟩
  | .convert source target => ⟨anyWords source.words, target.sources⟩
  | .branchIf _ _ => ⟨anyWords 1, []⟩
  | .branchIfIcmp _ => ⟨anyWords 2, []⟩
  | .branchIfAcmp _ => ⟨anyWords 2, []⟩
  | .compare type => ⟨anyWords type.words ++ anyWords type.words, PrimitiveType.int.sources⟩
  | .branch _ => ⟨[], []⟩
  | .returnOp _ =>
      ⟨(context.method.signature.returnType.map FieldType.demands).getD [], []⟩
  | .tableSwitch _ _ => ⟨anyWords 1, []⟩
  | .lookupSwitch _ _ => ⟨anyWords 1, []⟩
  | .getField index => fieldEffect context index false false
  | .putField index => fieldEffect context index false true
  | .getStatic index => fieldEffect context index true false
  | .putStatic index => fieldEffect context index true true
  | .invokeInterface index _ _ => invokeEffect context .interface index
  | .invokeSpecial index => invokeEffect context .special index
  | .invokeStatic index => invokeEffect context .static index
  | .invokeVirtual index => invokeEffect context .virtual index
  | .throwException => ⟨[.initialised], []⟩
  | .newObject _ => ⟨[], [.made (.newObject context.bci)]⟩
  | .newBasicArray _ => ⟨[.any], [.made .object]⟩
  | .newObjectArray _ => ⟨[.any], [.made .object]⟩
  | .newMultiArray _ dim => ⟨anyWords dim, [.made .object]⟩
  | .checkCast _ => ⟨[.initialised], [.operand 0]⟩
  | .instanceOf _ => ⟨[.initialised], PrimitiveType.int.sources⟩
  | .monitorEnter => ⟨anyWords 1, []⟩
  | .monitorExit => ⟨anyWords 1, []⟩
  | .illegalCode => ⟨[], []⟩

/-- A call of `<init>`. -/
def callsInitializer (context : Context) : Instruction → Bool
  | .invokeSpecial index =>
      match context.method.constants[index]? with
      | some (.method _ name _) | some (.interfaceMethod _ name _) =>
          decide (name = objectInitializerName)
      | _ => false
  | _ => false

/-! ## Slots against the table -/

def Demand.Met : Demand → Tag → Prop
  | .any, _ => True
  | .initialised, tag => tag.IsInitialised
  | .initialisedOrThis, tag => tag.IsInitialised ∨ tag = .initObject

/-- The tag a source gives, for the slots that were taken and the locals. A null
that was cast counts as an object, and an element of null as null. -/
def Source.Gives (taken locals : List Slot) : Source → Tag → Prop
  | .operand position, tag =>
      ∃ slot, taken[position]? = some slot ∧
        (tag = slot.tag ∨ (tag = .object ∧ slot.tag = .null))
  | .element position, tag =>
      tag = .object ∨ (tag = .null ∧ ∃ slot, taken[position]? = some slot ∧ slot.tag = .null)
  | .reference index, tag =>
      ∃ slot, locals[index]? = some slot ∧ slot.tag = tag ∧ tag.isReference
  | .word _ expected, tag => tag = expected
  | .made expected, tag => tag = expected

/-- The instruction takes `taken` from the stack as demanded, and puts `put` there. -/
structure Effected (effect : StackEffect) (locals taken put : List Slot) : Prop where
  met : List.Forall₂ (fun demand slot => demand.Met slot.tag) effect.demands taken
  given : List.Forall₂ (fun source slot => source.Gives taken locals slot.tag)
    effect.sources put

end PicoJvm.Verifier
