/-!
# Operators

The operators of assignments, with the byte that stands for each in code and the word that stands
for it in listings and messages.
-/

namespace MessageMachine

/-- Operators with one operand. -/
inductive UnaryOp where
  | not | negate | copy | complement
  deriving DecidableEq, Inhabited

namespace UnaryOp

def code : UnaryOp → UInt8
  | not => 0 | negate => 1 | copy => 2 | complement => 3

/-- The operator with the given code byte, if there is one. -/
def ofCode? (c : UInt8) : Option UnaryOp :=
  match c.toNat with
  | 0 => some not | 1 => some negate | 2 => some copy | 3 => some complement
  | _ => none

@[simp] theorem ofCode?_code (op : UnaryOp) : ofCode? op.code = some op := by cases op <;> rfl

def name : UnaryOp → String
  | not => "not" | negate => "neg" | copy => "mov" | complement => "bnot"

end UnaryOp

/-- Operators with two operands. -/
inductive BinaryOp where
  | add | subtract | multiply | divide | modulo
  | and | or | equal | notEqual
  | less | greater | atMost | atLeast
  | bitAnd | bitOr
  deriving DecidableEq, Inhabited

namespace BinaryOp

def code : BinaryOp → UInt8
  | add => 0 | subtract => 1 | multiply => 2 | divide => 3 | modulo => 4
  | and => 5 | or => 6 | equal => 7 | notEqual => 8
  | less => 9 | greater => 10 | atMost => 11 | atLeast => 12
  | bitAnd => 13 | bitOr => 14

/-- The operator with the given code byte, if there is one. -/
def ofCode? (c : UInt8) : Option BinaryOp :=
  match c.toNat with
  | 0 => some add | 1 => some subtract | 2 => some multiply | 3 => some divide | 4 => some modulo
  | 5 => some and | 6 => some or | 7 => some equal | 8 => some notEqual
  | 9 => some less | 10 => some greater | 11 => some atMost | 12 => some atLeast
  | 13 => some bitAnd | 14 => some bitOr
  | _ => none

@[simp] theorem ofCode?_code (op : BinaryOp) : ofCode? op.code = some op := by cases op <;> rfl

def name : BinaryOp → String
  | add => "add" | subtract => "sub" | multiply => "mul" | divide => "div" | modulo => "mod"
  | and => "and" | or => "or" | equal => "eq" | notEqual => "ne"
  | less => "lt" | greater => "gt" | atMost => "le" | atLeast => "ge"
  | bitAnd => "band" | bitOr => "bor"

end BinaryOp

/-- An operator of either kind. -/
inductive Operator where
  | unary (op : UnaryOp)
  | binary (op : BinaryOp)
  deriving DecidableEq, Inhabited

def Operator.name : Operator → String
  | unary op => op.name
  | binary op => op.name

end MessageMachine
