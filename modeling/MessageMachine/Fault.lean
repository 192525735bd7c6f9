import MessageMachine.Value
import MessageMachine.Operator
import MessageMachine.Limits

/-!
# Faults

Everything that can go wrong while code is read or run, one constructor for each cause.  The
wording is in one place, `Fault.message`.  A fault belongs to a `FaultClass`, which decides where it
is recorded and whether the record is written out at once.

Only one fault ends a whole chain of sends: an exhausted statement budget (`Fault.aborts`).  Any
other failure of a nested send becomes nil for the sender.
-/

namespace MessageMachine

/-- The kinds of faults, by who is to blame. -/
inductive FaultClass where
  | malformedCode | resourceLimit | lookup | type | native
  deriving DecidableEq

/-- A cause of failure. -/
inductive Fault where
  /-- A read of `needed` bytes at `offset` in a body of `length` bytes. -/
  | overrun (offset needed length : Nat)
  | unknownCommand (command : UInt8) (offset : Nat)
  | unknownUnary (code : UInt8)
  | unknownBinary (code : UInt8)
  | invalidOperandKind (code : UInt8)
  | invalidAssignMode (code : UInt8)
  | invalidGotoMode (code : UInt8)
  | branchOutOfRange (target length : Nat)
  | localOutOfRange (index : UInt32) (count : Nat)
  | tooManyLocals (requested : Nat)
  | propertyOutOfRange (index : UInt32) (count : Nat)
  | classVarOutOfRange (index : UInt32) (count : Nat)
  | constantNotStorable
  | missingReturn
  | tooManyPositional (count : Nat)
  | tooManyNamed (count : Nat)
  | recursionLimit (depth : Nat)
  | statementBudget (budget : Nat)
  | unknownObject (id : ObjectId)
  | unknownClass (id : ClassId)
  | unknownMessage (cls : ClassId) (message : MessageId)
  | unknownNative (index : UInt8)
  | tagMismatch (operator : Operator) (left right : Tag)
  | divisionByZero
  | native (name reason : String)
  deriving DecidableEq

namespace Fault

/-- The wording of a fault. -/
def message : Fault → String
  | overrun offset needed length =>
    s!"read of {needed} bytes at offset {offset} runs past end of code ({length} bytes)"
  | unknownCommand command offset => s!"unknown command {command} in opcode at offset {offset}"
  | unknownUnary code => s!"unknown unary operator {code}"
  | unknownBinary code => s!"unknown binary operator {code}"
  | invalidOperandKind code => s!"invalid operand kind {code}"
  | invalidAssignMode code => s!"invalid call assignment mode {code}"
  | invalidGotoMode code => s!"invalid goto mode {code}"
  | branchOutOfRange target length =>
    s!"branch to offset {target} outside of code ({length} bytes)"
  | localOutOfRange index count => s!"local {index} out of range ({count} in frame)"
  | tooManyLocals requested =>
    s!"message needs {requested} locals, limit is {Limits.locals}"
  | propertyOutOfRange index count => s!"property {index} out of range ({count} on object)"
  | classVarOutOfRange index count => s!"class variable {index} out of range ({count} on class)"
  | constantNotStorable => "constant operand is not a storage location"
  | missingReturn => "message code ended without a return"
  | tooManyPositional count =>
    s!"{count} positional parameters, limit is {Limits.positional}"
  | tooManyNamed count => s!"{count} named parameters, limit is {Limits.named}"
  | recursionLimit depth => s!"message call depth of {depth} reached"
  | statementBudget budget => s!"statement budget of {budget} exceeded"
  | unknownObject id => s!"object {id} does not exist"
  | unknownClass id => s!"class {id} does not exist"
  | unknownMessage cls message => s!"class {cls} has no handler for message {message}"
  | unknownNative index => s!"native function {index} is not registered"
  | tagMismatch operator left right =>
    s!"{operator.name} expects INT operands, got {left.name} and {right.name}"
  | divisionByZero => "division by zero"
  | native name reason => s!"native {name}: {reason}"

/-- The class a fault belongs to. -/
def faultClass : Fault → FaultClass
  | overrun .. | unknownCommand .. | unknownUnary _ | unknownBinary _ | invalidOperandKind _
  | invalidAssignMode _ | invalidGotoMode _ | branchOutOfRange .. | localOutOfRange ..
  | tooManyLocals _ | propertyOutOfRange .. | classVarOutOfRange .. | constantNotStorable
  | missingReturn => .malformedCode
  | tooManyPositional _ | tooManyNamed _ | recursionLimit _ | statementBudget _ => .resourceLimit
  | unknownObject _ | unknownClass _ | unknownMessage .. | unknownNative _ => .lookup
  | tagMismatch .. | divisionByZero => .type
  | native .. => .native

/-- Does the fault end the whole chain of sends? -/
def aborts : Fault → Bool
  | statementBudget _ => true
  | _ => false

end Fault

end MessageMachine
