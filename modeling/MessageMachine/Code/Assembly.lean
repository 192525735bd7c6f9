import MessageMachine.Code.Instruction
import MessageMachine.Handler

/-!
# Assembling code

An `Assembly` is a body in the making: the count of its plain locals, the parameters declared so
far, and the code emitted so far.  Offsets and branch targets count from the first instruction while
the code is being written; only when the body is finished, and its header is known, are the targets
moved on by the length of the header.  So parameters may be declared at any time.

A forward goto gives out a `Label`, the place of its target in the code, and `bindLabel` writes the
offset reached so far there.

A local is numbered after the parameters declared *so far* (`plainLocal`), so its number is right
for the finished body if all parameters are declared before it is asked for.

A count that does not fit its byte in the code is cut to it, while all that was counted is written.
-/

namespace MessageMachine

/-- Why a value cannot be assembled: there is no packed constant for it. -/
inductive Unpackable where
  | default
  | operand
  deriving DecidableEq

def Unpackable.message : Unpackable → String
  | default => "parameter default must fit in a packed constant"
  | operand => "value must fit in a packed constant"

/-- The operand that stands for a value. -/
def Operand.ofValue (v : Value) : Except Unpackable Operand :=
  match v.packed? with
  | some c => .ok ⟨.constant, c⟩
  | none => .error .operand

/-- The place of a goto's target in the code. -/
structure Label where
  position : Nat
  deriving DecidableEq

/-- A body in the making. -/
structure Assembly where
  /-- The count of plain locals. -/
  locals : UInt8 := 0
  /-- The parameters with their packed defaults. -/
  parameters : List (ParameterId × UInt32) := []
  code : Array UInt8 := #[]
  /-- The places of branch targets, in the order in which they were emitted. -/
  branches : List Nat := []

namespace Assembly

/-- The offset that the next instruction will have. -/
def offset (a : Assembly) : Nat := a.code.size

def headerLength (a : Assembly) : Nat := 2 + 8 * a.parameters.length

def emit (a : Assembly) (bytes : List UInt8) : Assembly :=
  { a with code := a.code ++ bytes.toArray }

/-- The code with a word written over the four bytes at `position`. -/
def putWord (code : Array UInt8) (position : Nat) (w : UInt32) : Array UInt8 :=
  (bytesOfWord w).zipIdx.foldl (fun code (b, i) => code.setIfInBounds (position + i) b) code

/-- The word in the four bytes at `position`. -/
def wordAt (code : Array UInt8) (position : Nat) : UInt32 :=
  wordOfBytes (code.getD position 0) (code.getD (position + 1) 0) (code.getD (position + 2) 0)
    (code.getD (position + 3) 0)

/-- The code with the target at `position` moved on by `distance`. -/
def rebase (distance : UInt32) (code : Array UInt8) (position : Nat) : Array UInt8 :=
  putWord code position (wordAt code position + distance)

/-- The header: the two counts, cut to a byte each, and the table of parameters. -/
def header (a : Assembly) : List UInt8 :=
  a.locals :: UInt8.ofNat a.parameters.length ::
    a.parameters.flatMap fun (id, default) => bytesOfWord id.number ++ bytesOfWord default

/-- The finished body. -/
def toBytes (a : Assembly) : Array UInt8 :=
  a.header.toArray ++ a.branches.foldl (rebase (.ofNat a.headerLength)) a.code

/-- The handler with the finished body. -/
def toHandler (a : Assembly) (id : MessageId) (name : String) : Except Fault Handler :=
  Handler.ofBody id name a.toBytes

/-! ## The bytes of instructions -/

def opcode (command : Command) (destination source₁ source₂ : UInt8) : UInt8 :=
  Opcode.toByte ⟨command.code, destination, source₁, source₂⟩

/-- An operand that brings its kind along. -/
def taggedOperand (o : Operand) : List UInt8 := o.kind.code :: bytesOfWord o.data

def namedOperand (n : NamedOperand) : List UInt8 :=
  bytesOfWord n.name.number ++ taggedOperand n.operand

def unaryBytes (op : UnaryOp) (destination : Destination) (source : Operand) : List UInt8 :=
  opcode .assignUnary destination.place.code source.kind.code 0 :: op.code ::
    (bytesOfWord destination.index ++ bytesOfWord source.data)

def binaryBytes (op : BinaryOp) (destination : Destination) (left right : Operand) : List UInt8 :=
  opcode .assignBinary destination.place.code left.kind.code right.kind.code :: op.code ::
    (bytesOfWord destination.index ++ bytesOfWord left.data ++ bytesOfWord right.data)

def gotoOpcode (mode : GotoMode) (condition : Option Operand) : UInt8 :=
  opcode .goto 0 mode.code (match condition with | some o => o.kind.code | none => 0)

def callBytes (native : UInt8) (destination : Option Destination) (positional : List Operand)
    (named : List NamedOperand) : List UInt8 :=
  opcode .call 0 (assignField (destination.map Destination.place)) 0 :: native ::
    ((match destination with | some d => bytesOfWord d.index | none => []) ++
      UInt8.ofNat positional.length :: positional.flatMap taggedOperand ++
      UInt8.ofNat named.length :: named.flatMap namedOperand)

def leaveBytes (value : Operand) : List UInt8 :=
  opcode .leave 1 value.kind.code 0 :: bytesOfWord value.data

end Assembly

/-- Why a program does not give a handler: it asks for a constant that there is none for, or the
finished body is not accepted. -/
inductive AssemblyFault where
  | unpackable (u : Unpackable)
  | rejected (f : Fault)
  deriving DecidableEq

def AssemblyFault.message : AssemblyFault → String
  | unpackable u => u.message
  | rejected f => f.message

/-- A program that writes code. -/
abbrev Assembler := StateT Assembly (Except Unpackable)

namespace Assembler

def emit (bytes : List UInt8) : Assembler Unit := modify (·.emit bytes)

/-- The offset that the next instruction will have. -/
def offset : Assembler Nat := return (← get).offset

/-- Declares a parameter and gives its local. -/
def parameter (id : ParameterId) (default : Value) : Assembler UInt32 := do
  match default.packed? with
  | none => throw .default
  | some c =>
    let a ← get
    set { a with parameters := a.parameters ++ [(id, c)] }
    return .ofNat a.parameters.length

/-- The `n`-th plain local, after the parameters declared so far. -/
def plainLocal (n : UInt32) : Assembler UInt32 :=
  return .ofNat (← get).parameters.length + n

/-- The operand that stands for a value. -/
def constant (v : Value) : Assembler Operand := liftM (Operand.ofValue v)

def unary (op : UnaryOp) (destination : Destination) (source : Operand) : Assembler Unit :=
  emit (Assembly.unaryBytes op destination source)

def move (destination : Destination) (source : Operand) : Assembler Unit :=
  unary .copy destination source

/-- Assigns a constant. -/
def load (destination : Destination) (v : Value) : Assembler Unit := do
  move destination (← constant v)

def binary (op : BinaryOp) (destination : Destination) (left right : Operand) : Assembler Unit :=
  emit (Assembly.binaryBytes op destination left right)

/-- Emits a goto and keeps the place of its target. -/
def gotoWith (mode : GotoMode) (target : UInt32) (condition : Option Operand) :
    Assembler Label := do
  emit [Assembly.gotoOpcode mode condition]
  let position ← offset
  emit (bytesOfWord target)
  modify fun a => { a with branches := a.branches ++ [position] }
  match condition with
  | some o => emit (bytesOfWord o.data)
  | none => pure ()
  return ⟨position⟩

def goto : Assembler Label := gotoWith .always 0 none

def gotoIfTrue (condition : Operand) : Assembler Label := gotoWith .ifTrue 0 (some condition)

def gotoIfFalse (condition : Operand) : Assembler Label := gotoWith .ifFalse 0 (some condition)

/-- Emits a goto to an offset that is known already. -/
def gotoBack (target : Nat) : Assembler Unit := do
  let _ ← gotoWith .always (.ofNat target) none

/-- Makes a forward goto lead to the offset reached so far. -/
def bindLabel (label : Label) : Assembler Unit :=
  modify fun a => { a with code := Assembly.putWord a.code label.position (.ofNat a.offset) }

def call (native : UInt8) (destination : Option Destination) (positional : List Operand)
    (named : List NamedOperand) : Assembler Unit :=
  emit (Assembly.callBytes native destination positional named)

def leave (value : Operand) : Assembler Unit := emit (Assembly.leaveBytes value)

/-- Returns a constant. -/
def leaveConstant (v : Value) : Assembler Unit := do
  leave (← constant v)

def handOver : Assembler Unit := emit [Assembly.opcode .leave 0 0 0]

def line (number : UInt32) : Assembler Unit :=
  emit (Assembly.opcode .line 0 0 0 :: bytesOfWord number)

/-- The handler that a program writes, with the given count of plain locals. -/
def toHandler (program : Assembler Unit) (locals : UInt8) (id : MessageId) (name : String) :
    Except AssemblyFault Handler :=
  match program.run { locals } with
  | .ok (_, a) => (a.toHandler id name).mapError .rejected
  | .error u => .error (.unpackable u)

end Assembler

end MessageMachine
