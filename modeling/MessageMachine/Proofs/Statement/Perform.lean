import MessageMachine.Proofs.Statement.Effect

/-!
# Performing decoded instructions

The machine executes a statement while it reads it, and builds no instruction.  `Action.perform` is
the other way to do it: it takes an instruction that has been decoded already, with the cursor
behind it, and does what the instruction says.  It is the meaning of instructions, and what the
statements are held against.

For every command but the call, the two ways are the same action (`Action.rest_eq_perform`): the
whole instruction is read before anything is done about it.  So the equality holds also when the
reading fails.  It comes from `Action.reading` being a morphism of monads.  A call fetches its
operands between the readings, and has a module of its own.
-/

namespace MessageMachine

namespace Action

/-- Fetches an operand of an instruction. -/
def fetchOperand (o : Operand) : Action Value := fetch o.kind o.data

/-- Fetches a named operand of an instruction. -/
def fetchNamed (n : NamedOperand) : Action Argument := do
  return ⟨n.name, ← fetchOperand n.operand⟩

/-- Goes on at `target`, or just goes on. -/
def jumpIf (taken : Bool) (target : UInt32) : Action Unit := if taken then jump target else return

/-- What remains of a call when all its operands have been fetched. -/
def conclude (scope : Scope) (index : UInt8) (destination : Option Destination)
    (positional : List Value) (named : List Argument) : Action Next := do
  match scope.environment.natives.slot index with
  | none => throw (.unknownNative index)
  | some native =>
    match ← invoke scope index native positional named with
    | .value value =>
      assignIf destination value
      return .proceed
    | .fault f => throw f
    | .send send => return .await send destination

/-- Does what an instruction says. -/
def perform (scope : Scope) : Instruction → Action Next
  | .unary op destination source => do
    let value ← fetchOperand source
    assign destination (← liftM (op.apply value))
    return .proceed
  | .binary op destination left right => do
    let left ← fetchOperand left
    let right ← fetchOperand right
    assign destination (← liftM (op.apply left right))
    return .proceed
  | .goto target => do
    jump target
    return .proceed
  | .gotoIf wanted target condition => do
    let value ← fetchOperand condition
    jumpIf (value.isTrue == wanted) target
    return .proceed
  | .call index destination positional named => do
    let positional ← positional.mapM fetchOperand
    let named ← named.mapM fetchNamed
    conclude scope index destination positional named
  | .handOver => return .leave .handOver
  | .leave value => return .leave (.value (← fetchOperand value))
  | .line number => do
    setLine number
    return .proceed

/-! ## Reading is a morphism -/

variable {α β : Type}

theorem reading_pure (a : α) : reading (pure a) = pure a := funext fun _ => rfl

theorem reading_lift (x : Except Fault α) : reading (liftM x) = liftM x := by
  cases x <;> rfl

theorem reading_bind (r : Reading α) (k : α → Reading β) :
    reading (r >>= k) = reading r >>= fun a => reading (k a) := by
  funext m
  rw [reading_run]
  have h : reading r m = ((r m.execution.cursor).1,
      { m with execution := { m.execution with cursor := (r m.execution.cursor).2 } }) :=
    reading_run r m
  generalize outcome : r m.execution.cursor = x at h
  match x with
  | (.ok a, c) => rw [bind_of_ok outcome, bind_of_ok h, reading_run]
  | (.error f, c) => rw [bind_of_error outcome, bind_of_error h]

/-! ## One instruction, read and performed -/

theorem unary_eq_perform (scope : Scope) (opcode : Opcode) :
    rest scope opcode .assignUnary =
      reading (Instruction.decodeRest opcode .assignUnary) >>= perform scope := by
  simp only [rest, unary, Instruction.decodeRest, Destination.decode, Operand.decode, perform,
    fetchOperand, reading_bind, reading_pure, bind_assoc, pure_bind]

theorem binary_eq_perform (scope : Scope) (opcode : Opcode) :
    rest scope opcode .assignBinary =
      reading (Instruction.decodeRest opcode .assignBinary) >>= perform scope := by
  simp only [rest, binary, Instruction.decodeRest, Destination.decode, Operand.decode, perform,
    fetchOperand, reading_bind, reading_pure, bind_assoc, pure_bind]

/-- A goto reads its condition, if it has one, before it knows whether it is taken. -/
theorem goto_eq_perform (scope : Scope) (opcode : Opcode) :
    rest scope opcode .goto =
      reading (Instruction.decodeRest opcode .goto) >>= perform scope := by
  simp only [rest, goto, Instruction.decodeRest, Instruction.decodeGoto, reading_bind, reading_lift,
    bind_assoc]
  congr 1
  funext mode
  congr 1
  funext target
  cases mode with
  | always =>
    simp only [isTaken, reading_pure, pure_bind, perform, if_true]
  | ifTrue =>
    simp only [isTaken, Operand.decode, perform, fetchOperand, jumpIf, beq_true, reading_bind,
      reading_pure, bind_assoc, pure_bind]
  | ifFalse =>
    simp only [isTaken, Operand.decode, perform, fetchOperand, jumpIf, beq_false, reading_bind,
      reading_pure, bind_assoc, pure_bind]

theorem leave_eq_perform (scope : Scope) (opcode : Opcode) :
    rest scope opcode .leave =
      reading (Instruction.decodeRest opcode .leave) >>= perform scope := by
  simp only [rest, Instruction.decodeRest]
  split
  · simp only [perform, reading_pure, pure_bind]
  · simp only [Operand.decode, perform, fetchOperand, reading_bind, reading_pure, bind_assoc,
      pure_bind]

theorem line_eq_perform (scope : Scope) (opcode : Opcode) :
    rest scope opcode .line =
      reading (Instruction.decodeRest opcode .line) >>= perform scope := by
  simp only [rest, Instruction.decodeRest, perform, reading_bind, reading_pure, bind_assoc,
    pure_bind]

/-- **Executing in place is reading and then performing**, for every command but the call. -/
theorem rest_eq_perform (scope : Scope) (opcode : Opcode) {command : Command}
    (h : command ≠ .call) :
    rest scope opcode command =
      reading (Instruction.decodeRest opcode command) >>= perform scope := by
  cases command with
  | assignUnary => exact unary_eq_perform scope opcode
  | assignBinary => exact binary_eq_perform scope opcode
  | goto => exact goto_eq_perform scope opcode
  | call => exact absurd rfl h
  | leave => exact leave_eq_perform scope opcode
  | line => exact line_eq_perform scope opcode

end Action

end MessageMachine
