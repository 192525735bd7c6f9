import MessageMachine.Code.Opcode
import MessageMachine.Value.Packed

/-!
# Instructions

A decoded instruction, and its line in a listing.  The machine does not run instructions of this
form: it reads operands in place, one after the other.  This is the form in which code is explained,
and the yardstick by which running it is judged.
-/

namespace MessageMachine

/-- A source operand: where to look, and the word that says which one. -/
structure Operand where
  kind : OperandKind
  data : UInt32
  deriving DecidableEq, Inhabited

/-- The target of an assignment. -/
structure Destination where
  place : Place
  index : UInt32
  deriving DecidableEq, Inhabited

namespace Operand

def ofLocal (index : UInt32) : Operand := ⟨.localVar, index⟩
def ofProperty (index : UInt32) : Operand := ⟨.property, index⟩

end Operand

namespace Destination

def ofLocal (index : UInt32) : Destination := ⟨.localVar, index⟩
def ofProperty (index : UInt32) : Destination := ⟨.property, index⟩

end Destination

/-- An operand that is passed under a name. -/
structure NamedOperand where
  name : ParameterId
  operand : Operand
  deriving DecidableEq, Inhabited

/-- What one instruction says. -/
inductive Instruction where
  | unary (op : UnaryOp) (destination : Destination) (source : Operand)
  | binary (op : BinaryOp) (destination : Destination) (left right : Operand)
  | goto (target : UInt32)
  /-- Taken when the truth of `condition` is `wanted`. -/
  | gotoIf (wanted : Bool) (target : UInt32) (condition : Operand)
  | call (native : UInt8) (destination : Option Destination) (positional : List Operand)
      (named : List NamedOperand)
  | handOver
  | leave (value : Operand)
  | line (number : UInt32)
  deriving DecidableEq, Inhabited

/-! ## The written form -/

def Operand.text (o : Operand) : String :=
  match o.kind with
  | .localVar => "l" ++ toString o.data
  | .property => "p" ++ toString o.data
  | .classVar => "c" ++ toString o.data
  | .constant => "#" ++ (Value.ofPacked o.data).text

/-- A destination is written as the operand that reads it back. -/
def Destination.operand (d : Destination) : Operand := ⟨d.place.kind, d.index⟩

def Destination.text (d : Destination) : String := d.operand.text

def NamedOperand.text (n : NamedOperand) : String :=
  "$" ++ toString n.name ++ "=" ++ n.operand.text

/-- The line of an instruction in a listing. -/
def Instruction.text : Instruction → String
  | unary op destination source => op.name ++ " " ++ destination.text ++ ", " ++ source.text
  | binary op destination left right =>
    op.name ++ " " ++ destination.text ++ ", " ++ left.text ++ ", " ++ right.text
  | goto target => "goto @" ++ toString target
  | gotoIf wanted target condition =>
    "goto @" ++ toString target ++ (if wanted then " if " else " unless ") ++ condition.text
  | call native destination positional named =>
    (match destination with
      | some d => d.text ++ " := "
      | none => "") ++
    "call !" ++ toString native ++ "(" ++
      ", ".intercalate (positional.map Operand.text ++ named.map NamedOperand.text) ++ ")"
  | handOver => "propagate"
  | leave value => "return " ++ value.text
  | line number => "line " ++ toString number

end MessageMachine
