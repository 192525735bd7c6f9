import MessageMachine.Fault

/-!
# The opcode byte

Every instruction begins with one byte of four fields, from the top: three bits of *command*, one
bit of *destination*, and twice two bits of *source*.

    7 6 5    4            3 2      1 0
    command  destination  source₁  source₂

What the lower three fields mean depends on the command.  A destination is a local or a property
(`Place`); a source is any of the four `OperandKind`s.  Calls and gotos use the first source field
for their mode.

`Opcode.ofByte` takes a byte apart and `Opcode.toByte` puts it together again, cutting each field to
its width.
-/

namespace MessageMachine

/-- What an instruction does. -/
inductive Command where
  | assignUnary | assignBinary | goto | call | leave | line
  deriving DecidableEq

namespace Command

def code : Command → UInt8
  | assignUnary => 0 | assignBinary => 1 | goto => 2 | call => 3 | leave => 4 | line => 5

/-- The command with the given number, if there is one. -/
def ofCode? (c : UInt8) : Option Command :=
  match c.toNat with
  | 0 => some assignUnary | 1 => some assignBinary | 2 => some goto
  | 3 => some call | 4 => some leave | 5 => some line
  | _ => none

@[simp] theorem ofCode?_code (c : Command) : ofCode? c.code = some c := by cases c <;> rfl

@[simp] theorem code_cut (c : Command) : c.code &&& 7 = c.code := by cases c <;> rfl

/-- The name of a command in the record of executed instructions. -/
def name : Command → String
  | assignUnary => "UnaryAssign" | assignBinary => "BinaryAssign" | goto => "Goto"
  | call => "Call" | leave => "Return" | line => "DebugLine"

end Command

/-- Where a source operand lives. -/
inductive OperandKind where
  | localVar | property | constant | classVar
  deriving DecidableEq, Inhabited

namespace OperandKind

def code : OperandKind → UInt8
  | localVar => 0 | property => 1 | constant => 2 | classVar => 3

/-- Two bits name a kind; the bits above them do not count. -/
def ofField (bits : UInt8) : OperandKind :=
  match bits.toNat % 4 with
  | 0 => localVar | 1 => property | 2 => constant | _ => classVar

/-- A whole byte names a kind only when nothing stands above the two bits. -/
def ofByte (b : UInt8) : Except Fault OperandKind :=
  if b.toNat < 4 then .ok (ofField b) else .error (.invalidOperandKind b)

@[simp] theorem ofField_code (k : OperandKind) : ofField k.code = k := by cases k <;> rfl

@[simp] theorem ofByte_code (k : OperandKind) : ofByte k.code = .ok k := by cases k <;> rfl

@[simp] theorem code_cut (k : OperandKind) : k.code &&& 3 = k.code := by cases k <;> rfl

def name : OperandKind → String
  | localVar => "local" | property => "property" | constant => "constant" | classVar => "classvar"

end OperandKind

/-- Where an assignment lands: in a local or in a property of the receiver. -/
inductive Place where
  | localVar | property
  deriving DecidableEq, Inhabited

namespace Place

def code : Place → UInt8
  | localVar => 0 | property => 1

/-- One bit names a place; the bits above it do not count. -/
def ofField (bit : UInt8) : Place := if bit.toNat % 2 = 0 then localVar else property

@[simp] theorem ofField_code (p : Place) : ofField p.code = p := by cases p <;> rfl

@[simp] theorem code_cut (p : Place) : p.code &&& 1 = p.code := by cases p <;> rfl

/-- A place is read back as an operand of the same kind. -/
def kind : Place → OperandKind
  | localVar => .localVar
  | property => .property

end Place

/-- The mode of a call: its value is dropped, or goes to a place. -/
def assignMode (field : UInt8) : Except Fault (Option Place) :=
  match field.toNat with
  | 0 => .ok none
  | 1 => .ok (some .localVar)
  | 2 => .ok (some .property)
  | _ => .error (.invalidAssignMode field)

/-- The field that stands for the mode of a call. -/
def assignField : Option Place → UInt8
  | none => 0
  | some .localVar => 1
  | some .property => 2

@[simp] theorem assignMode_assignField (p : Option Place) : assignMode (assignField p) = .ok p := by
  rcases p with _ | _ | _ <;> rfl

@[simp] theorem assignField_cut (p : Option Place) : assignField p &&& 3 = assignField p := by
  rcases p with _ | _ | _ <;> rfl

/-- When a goto is taken. -/
inductive GotoMode where
  | always | ifTrue | ifFalse
  deriving DecidableEq, Inhabited

namespace GotoMode

def code : GotoMode → UInt8
  | always => 0 | ifTrue => 1 | ifFalse => 2

def ofField (field : UInt8) : Except Fault GotoMode :=
  match field.toNat with
  | 0 => .ok always
  | 1 => .ok ifTrue
  | 2 => .ok ifFalse
  | _ => .error (.invalidGotoMode field)

@[simp] theorem ofField_code (m : GotoMode) : ofField m.code = .ok m := by cases m <;> rfl

@[simp] theorem code_cut (m : GotoMode) : m.code &&& 3 = m.code := by cases m <;> rfl

end GotoMode

/-- The unary operator that a byte stands for. -/
def UnaryOp.ofByte (b : UInt8) : Except Fault UnaryOp :=
  match ofCode? b with
  | some op => .ok op
  | none => .error (.unknownUnary b)

/-- The binary operator that a byte stands for. -/
def BinaryOp.ofByte (b : UInt8) : Except Fault BinaryOp :=
  match ofCode? b with
  | some op => .ok op
  | none => .error (.unknownBinary b)

/-- An opcode byte, field by field. -/
structure Opcode where
  command : UInt8
  destination : UInt8
  source₁ : UInt8
  source₂ : UInt8
  deriving DecidableEq

namespace Opcode

/-- The fields of a byte. -/
def ofByte (b : UInt8) : Opcode where
  command := b >>> 5
  destination := (b >>> 4) &&& 1
  source₁ := (b >>> 2) &&& 3
  source₂ := b &&& 3

/-- The byte of four fields, each cut to its width. -/
def toByte (o : Opcode) : UInt8 :=
  (o.command &&& 7) <<< 5 ||| (o.destination &&& 1) <<< 4 ||| (o.source₁ &&& 3) <<< 2 |||
    (o.source₂ &&& 3)

/-- The fields come back from the byte as they were cut. -/
theorem ofByte_toByte (o : Opcode) :
    ofByte o.toByte =
      ⟨o.command &&& 7, o.destination &&& 1, o.source₁ &&& 3, o.source₂ &&& 3⟩ := by
  have fields : ∀ c < 8, ∀ d < 2, ∀ s < 4, ∀ t < 4,
      ofByte (UInt8.ofNat c <<< 5 ||| UInt8.ofNat d <<< 4 ||| UInt8.ofNat s <<< 2 |||
        UInt8.ofNat t) = ⟨.ofNat c, .ofNat d, .ofNat s, .ofNat t⟩ := by
    decide
  have cut (field mask : UInt8) : (field &&& mask).toNat ≤ mask.toNat := by
    rw [UInt8.toNat_and]
    exact Nat.and_le_right
  have := fields (o.command &&& 7).toNat (Nat.lt_succ_of_le (cut _ _))
    (o.destination &&& 1).toNat (Nat.lt_succ_of_le (cut _ _))
    (o.source₁ &&& 3).toNat (Nat.lt_succ_of_le (cut _ _))
    (o.source₂ &&& 3).toNat (Nat.lt_succ_of_le (cut _ _))
  simpa only [UInt8.ofNat_toNat, toByte] using this

def place (o : Opcode) : Place := .ofField o.destination
def kind₁ (o : Opcode) : OperandKind := .ofField o.source₁
def kind₂ (o : Opcode) : OperandKind := .ofField o.source₂

/-- Does a return hand the message over to the superclass? -/
def handsOver (o : Opcode) : Bool := o.destination.toNat % 2 = 0

/-- The command of an opcode read at `offset`. -/
def commandAt (o : Opcode) (offset : Nat) : Except Fault Command :=
  match Command.ofCode? o.command with
  | some c => .ok c
  | none => .error (.unknownCommand o.command offset)

/-- The fields as text, for the record of executed instructions. -/
def text (o : Opcode) : String :=
  "Opcode \x7b command: " ++ toString o.command ++ ", dest: " ++ toString o.destination ++
    ", source1: " ++ toString o.source₁ ++ ", source2: " ++ toString o.source₂ ++ " \x7d"

end Opcode

end MessageMachine
