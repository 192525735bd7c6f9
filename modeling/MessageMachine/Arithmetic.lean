import MessageMachine.Fault

/-!
# What the operators compute

Payloads are sixty-bit words in two's complement, and every result is such a word again: sums,
differences, products and quotients are exact up to a multiple of `2^60`.

Copying, truth (`not`, `and`, `or`) and equality work on values of any tag.  All other operators
want integers; given anything else they fail with the tags they were given, in order.  Division
truncates toward zero, and the remainder is never negative.
-/

namespace MessageMachine

/-- The payloads of two integers, or the complaint that `op` makes about their tags. -/
def BinaryOp.integers (op : BinaryOp) (left right : Value) :
    Except Fault (BitVec 60 × BitVec 60) :=
  if left.tag = .int ∧ right.tag = .int then .ok (left.payload, right.payload)
  else .error (.tagMismatch (.binary op) left.tag right.tag)

/-- The payload of an integer, or the complaint that `op` makes about its tag. -/
def UnaryOp.integer (op : UnaryOp) (source : Value) : Except Fault (BitVec 60) :=
  if source.tag = .int then .ok source.payload
  else .error (.tagMismatch (.unary op) source.tag .int)

/-- The result of a unary operator. -/
def UnaryOp.apply (op : UnaryOp) (source : Value) : Except Fault Value :=
  match op with
  | .copy => .ok source
  | .not => .ok (.truth (!source.isTrue))
  | .negate => (op.integer source).map fun w => ⟨.int, -w⟩
  | .complement => (op.integer source).map fun w => ⟨.int, ~~~w⟩

/-- The result of a binary operator. -/
def BinaryOp.apply (op : BinaryOp) (left right : Value) : Except Fault Value :=
  match op with
  | .and => .ok (.truth (left.isTrue && right.isTrue))
  | .or => .ok (.truth (left.isTrue || right.isTrue))
  | .equal => .ok (.truth (left = right))
  | .notEqual => .ok (.truth (left ≠ right))
  | .add => (op.integers left right).map fun (l, r) => ⟨.int, l + r⟩
  | .subtract => (op.integers left right).map fun (l, r) => ⟨.int, l - r⟩
  | .multiply => (op.integers left right).map fun (l, r) => ⟨.int, l * r⟩
  | .divide => do
    let (l, r) ← op.integers left right
    if r = 0 then .error .divisionByZero else .ok ⟨.int, l.sdiv r⟩
  | .modulo => do
    let (l, r) ← op.integers left right
    if r = 0 then .error .divisionByZero else .ok (.int (l.toInt % r.toInt))
  | .less => (op.integers left right).map fun (l, r) => .truth (l.slt r)
  | .greater => (op.integers left right).map fun (l, r) => .truth (r.slt l)
  | .atMost => (op.integers left right).map fun (l, r) => .truth (l.sle r)
  | .atLeast => (op.integers left right).map fun (l, r) => .truth (r.sle l)
  | .bitAnd => (op.integers left right).map fun (l, r) => ⟨.int, l &&& r⟩
  | .bitOr => (op.integers left right).map fun (l, r) => ⟨.int, l ||| r⟩

end MessageMachine
