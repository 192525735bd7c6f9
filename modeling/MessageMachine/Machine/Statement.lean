import MessageMachine.Machine.State
import MessageMachine.Arithmetic
import MessageMachine.Code.Disassembly

/-!
# Executing one statement

A statement is executed as it is read: each operand is fetched as soon as, or together with, the
bytes that name it, and no decoded instruction is ever built.  What a statement has done before it
fails stays done; that is little, since a destination is written last of all.

A call takes its operands one by one, looks at its native slot only after the last of them, is
counted, and then runs the function.  If the function replies with a send, the statement is left
waiting for the answer (`Next.await`).
-/

namespace MessageMachine

/-- What a statement can change. -/
structure Moment where
  world : World
  statistics : Statistics
  nativeCalls : Nat
  execution : Execution

/-- What a statement may consult besides. -/
structure Scope where
  environment : Environment
  /-- The running handlers below the one that executes the statement. -/
  below : List Activation
  /-- The statements counted so far, this one included. -/
  statements : Nat

/-- How things go on after a statement. -/
inductive Next where
  | proceed
  /-- A send is to be made, and its answer goes to a destination. -/
  | await (send : Send) (destination : Option Destination)
  | leave (ending : Ending)

/-- A computation on a moment, which may fail and keeps what it has done so far. -/
abbrev Action := ExceptT Fault (StateM Moment)

namespace Action

/-- Takes bytes off the code that is being executed. -/
def reading {α : Type} (r : Reading α) : Action α := do
  let m ← get
  let (result, cursor) := r m.execution.cursor
  set { m with execution := { m.execution with cursor } }
  liftM result

/-- Records something in the journal. -/
def log (e : Entry) : Action Unit := modify fun m => { m with world := m.world.log e }

/-- The innermost running handler. -/
def position : Action (Option Activation) := return (← get).execution.activation?

/-- Fetches an operand.  Fetching a local that was never written is recorded. -/
def fetch (kind : OperandKind) (data : UInt32) : Action Value := do
  let m ← get
  let (result, world) := m.world.read m.execution.receiver m.execution.frame kind data
  set { m with world }
  let value ← liftM result
  if kind = .localVar ∧ m.execution.frame.isUnwritten data then
    log (.unwrittenRead (← position) data)
  return value

/-- Writes a destination. -/
def assign (destination : Destination) (value : Value) : Action Unit := do
  let m ← get
  let (result, world) := m.world.write m.execution.receiver m.execution.frame
    destination.place.kind destination.index value
  set { m with world }
  let frame ← liftM result
  modify fun m => { m with execution := { m.execution with frame } }

/-- Writes the destination of a call, if it has one. -/
def assignIf : Option Destination → Value → Action Unit
  | some destination, value => assign destination value
  | none, _ => return

/-! ## Assignments -/

def unary (opcode : Opcode) : Action Unit := do
  let op ← reading UnaryOp.decode
  let index ← reading Cursor.word
  let data ← reading Cursor.word
  let source ← fetch opcode.kind₁ data
  let result ← liftM (op.apply source)
  assign ⟨opcode.place, index⟩ result

def binary (opcode : Opcode) : Action Unit := do
  let op ← reading BinaryOp.decode
  let index ← reading Cursor.word
  let data₁ ← reading Cursor.word
  let data₂ ← reading Cursor.word
  let left ← fetch opcode.kind₁ data₁
  let right ← fetch opcode.kind₂ data₂
  let result ← liftM (op.apply left right)
  assign ⟨opcode.place, index⟩ result

/-! ## Branches -/

/-- Goes on at `target`, which has to lie among the instructions. -/
def jump (target : UInt32) : Action Unit := do
  let e := (← get).execution
  if target.toNat < e.codeStart then throw (.branchOutOfRange target.toNat e.cursor.code.size)
  else reading (Cursor.seek target.toNat)

/-- Is a branch of the given mode taken?  A condition is read and fetched if there is one. -/
def isTaken (opcode : Opcode) : GotoMode → Action Bool
  | .always => return true
  | .ifTrue => do
    let condition ← fetch opcode.kind₂ (← reading Cursor.word)
    return condition.isTrue
  | .ifFalse => do
    let condition ← fetch opcode.kind₂ (← reading Cursor.word)
    return !condition.isTrue

def goto (opcode : Opcode) : Action Unit := do
  let mode ← liftM (GotoMode.ofField opcode.source₁)
  let target ← reading Cursor.word
  if ← isTaken opcode mode then jump target

/-! ## Calls -/

/-- Reads and fetches an operand that brings its kind along. -/
def operand : Action Value := do
  let o ← reading Operand.decodeTagged
  fetch o.kind o.data

/-- Reads and fetches a named operand. -/
def argument : Action Argument := do
  let name ← reading Cursor.word
  return ⟨⟨name⟩, ← operand⟩

/-- Counts a call of a native function, and runs the function. -/
def invoke (scope : Scope) (index : UInt8) (native : Native) (positional : List Value)
    (named : List Argument) : Action Reply := do
  modify fun m =>
    { m with
      statistics := m.statistics.countNative index
      nativeCalls := m.nativeCalls + 1 }
  log (.nativeCall native.name index)
  let m ← get
  let (reply, world) := native.run
    { name := native.name
      receiver := m.execution.receiver
      frame := m.execution.frame
      positional, named
      stack := m.execution.stackOn scope.below
      settings := scope.environment.settings
      statistics := m.statistics
      statements := scope.statements
      nativeCalls := m.nativeCalls }
    m.world
  set { m with world }
  return reply

/-- Executes what follows the opcode of a call. -/
def call (scope : Scope) (opcode : Opcode) : Action Next := do
  let index ← reading Cursor.byte
  let place ← liftM (assignMode opcode.source₁)
  let destination ← reading (Destination.decodeIf place)
  let positional ← collect operand (← reading positionalCount)
  let named ← collect argument (← reading namedCount)
  match scope.environment.natives.slot index with
  | none => throw (.unknownNative index)
  | some native =>
    match ← invoke scope index native positional named with
    | .value value =>
      assignIf destination value
      return .proceed
    | .fault f => throw f
    | .send send => return .await send destination

/-! ## Statements -/

/-- Notes the source line that a handler has reached. -/
def setLine (line : UInt32) : Action Unit :=
  modify fun m =>
    { m with
      execution := { m.execution with role := m.execution.role.map fun h => { h with line } } }

/-- Executes what follows an opcode with the given command. -/
def rest (scope : Scope) (opcode : Opcode) : Command → Action Next
  | .assignUnary => do
    unary opcode
    return .proceed
  | .assignBinary => do
    binary opcode
    return .proceed
  | .goto => do
    goto opcode
    return .proceed
  | .call => call scope opcode
  | .leave =>
    if opcode.handsOver then return .leave .handOver
    else do
      let value ← fetch opcode.kind₁ (← reading Cursor.word)
      return .leave (.value value)
  | .line => do
    setLine (← reading Cursor.word)
    return .proceed

/-- Executes one statement. -/
def statement (scope : Scope) : Action Next := do
  let offset := (← get).execution.cursor.offset
  let opcode := Opcode.ofByte (← reading Cursor.byte)
  let command ← liftM (opcode.commandAt offset)
  if scope.environment.settings.traceInstructions then
    log (.instruction (← position) offset command opcode)
  rest scope opcode command

end Action

end MessageMachine
