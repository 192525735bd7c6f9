import MessageMachine.Code.Cursor
import MessageMachine.Code.Instruction

/-!
# Disassembly

`Instruction.decode` reads one instruction off a cursor; `Disassembly.ofCode` reads a body from an
offset on, instruction after instruction, until it ends or something cannot be read.  A `Decoder`
does the same one item at a time, whenever it is asked for the next one.

An instruction takes at least its opcode byte (`Instruction.decode_advances`), so a body holds no
more instructions than bytes, and that is why the disassembly ends.

The count of a call's operands is checked before any of them is read.
-/

namespace MessageMachine

namespace Operand

/-- Reads the word of an operand whose kind is known from the opcode. -/
def decode (kind : OperandKind) : Reading Operand := do
  return ⟨kind, ← Cursor.word⟩

/-- Reads an operand that brings its kind along, as a byte. -/
def decodeTagged : Reading Operand := do
  decode (← OperandKind.ofByte (← Cursor.byte))

end Operand

/-- Reads the index of a destination whose place is known. -/
def Destination.decode (place : Place) : Reading Destination := do
  return ⟨place, ← Cursor.word⟩

/-- Reads the destination of a call, if its mode has one. -/
def Destination.decodeIf : Option Place → Reading (Option Destination)
  | some place => some <$> decode place
  | none => return none

def NamedOperand.decode : Reading NamedOperand := do
  let name ← Cursor.word
  return ⟨⟨name⟩, ← Operand.decodeTagged⟩

/-- Reads an operator byte. -/
def UnaryOp.decode : Reading UnaryOp := do
  liftM (ofByte (← Cursor.byte))

@[inherit_doc UnaryOp.decode]
def BinaryOp.decode : Reading BinaryOp := do
  liftM (ofByte (← Cursor.byte))

/-- Reads the count of positional operands of a call. -/
def positionalCount : Reading Nat := do
  let count ← Cursor.byte
  if count.toNat ≤ Limits.positional then return count.toNat
  else throw (.tooManyPositional count.toNat)

/-- Reads the count of named operands of a call. -/
def namedCount : Reading Nat := do
  let count ← Cursor.byte
  if count.toNat ≤ Limits.named then return count.toNat else throw (.tooManyNamed count.toNat)

namespace Instruction

/-- Reads what follows the opcode of a call. -/
def decodeCall (opcode : Opcode) : Reading Instruction := do
  let native ← Cursor.byte
  let destination ← Destination.decodeIf (← assignMode opcode.source₁)
  let positional ← collect Operand.decodeTagged (← positionalCount)
  let named ← collect NamedOperand.decode (← namedCount)
  return .call native destination positional named

/-- Reads what follows the opcode of a goto. -/
def decodeGoto (opcode : Opcode) : Reading Instruction := do
  let mode ← GotoMode.ofField opcode.source₁
  let target ← Cursor.word
  match mode with
  | .always => return .goto target
  | .ifTrue => return .gotoIf true target (← Operand.decode opcode.kind₂)
  | .ifFalse => return .gotoIf false target (← Operand.decode opcode.kind₂)

/-- Reads what follows an opcode with the given command. -/
def decodeRest (opcode : Opcode) : Command → Reading Instruction
  | .assignUnary => do
    let op ← UnaryOp.decode
    let destination ← Destination.decode opcode.place
    return .unary op destination (← Operand.decode opcode.kind₁)
  | .assignBinary => do
    let op ← BinaryOp.decode
    let destination ← Destination.decode opcode.place
    let left ← Operand.decode opcode.kind₁
    return .binary op destination left (← Operand.decode opcode.kind₂)
  | .goto => decodeGoto opcode
  | .call => decodeCall opcode
  | .leave =>
    if opcode.handsOver then return .handOver
    else return .leave (← Operand.decode opcode.kind₁)
  | .line => return .line (← Cursor.word)

/-- Reads one instruction. -/
def decode : Reading Instruction := do
  let offset := (← get).offset
  let opcode := Opcode.ofByte (← Cursor.byte)
  decodeRest opcode (← opcode.commandAt offset)

end Instruction

/-! ## Reading an instruction goes forward -/

namespace Forward

theorem byte : Forward Cursor.byte := by
  intro c
  rw [Cursor.byte_run]
  split
  · exact ⟨rfl, Nat.le_succ _⟩
  · exact ⟨rfl, Nat.le_refl _⟩

theorem word : Forward Cursor.word := by
  intro c
  rw [Cursor.word_run]
  split
  · exact ⟨rfl, Nat.le_add_right _ 4⟩
  · exact ⟨rfl, Nat.le_refl _⟩

theorem lift {α : Type} (x : Except Fault α) : Forward (liftM x : Reading α) := by
  cases x with
  | ok a => exact pure a
  | error f => exact throw f

theorem operand (kind : OperandKind) : Forward (Operand.decode kind) :=
  word.bind fun _ => pure _

theorem taggedOperand : Forward Operand.decodeTagged :=
  byte.bind fun _ => (lift _).bind fun _ => operand _

theorem destination (place : Place) : Forward (Destination.decode place) :=
  word.bind fun _ => pure _

theorem destinationIf (place : Option Place) : Forward (Destination.decodeIf place) := by
  cases place with
  | none => exact pure _
  | some p => exact (destination p).bind fun _ => pure _

theorem namedOperand : Forward NamedOperand.decode :=
  word.bind fun _ => taggedOperand.bind fun _ => pure _

theorem unaryOp : Forward UnaryOp.decode := byte.bind fun _ => lift _

theorem binaryOp : Forward BinaryOp.decode := byte.bind fun _ => lift _

theorem positionalCount : Forward positionalCount :=
  byte.bind fun _ => by split <;> first | exact pure _ | exact throw _

theorem namedCount : Forward namedCount :=
  byte.bind fun _ => by split <;> first | exact pure _ | exact throw _

theorem decodeCall (opcode : Opcode) : Forward (Instruction.decodeCall opcode) :=
  byte.bind fun _ => (lift _).bind fun _ => (destinationIf _).bind fun _ =>
    positionalCount.bind fun _ => (taggedOperand.collect _).bind fun _ =>
      namedCount.bind fun _ => (namedOperand.collect _).bind fun _ => pure _

theorem decodeGoto (opcode : Opcode) : Forward (Instruction.decodeGoto opcode) :=
  (lift _).bind fun mode => word.bind fun _ => by
    cases mode with
    | always => exact pure _
    | ifTrue => exact (operand _).bind fun _ => pure _
    | ifFalse => exact (operand _).bind fun _ => pure _

theorem decodeRest (opcode : Opcode) (command : Command) :
    Forward (Instruction.decodeRest opcode command) := by
  cases command with
  | assignUnary =>
    exact unaryOp.bind fun _ => (destination _).bind fun _ => (operand _).bind fun _ => pure _
  | assignBinary =>
    exact binaryOp.bind fun _ => (destination _).bind fun _ => (operand _).bind fun _ =>
      (operand _).bind fun _ => pure _
  | goto => exact decodeGoto opcode
  | call => exact decodeCall opcode
  | leave =>
    show Forward (if opcode.handsOver then _ else _)
    split
    · exact pure _
    · exact (operand _).bind fun _ => pure _
  | line => exact word.bind fun _ => pure _

/-- A reading that starts with a byte and succeeds has left that byte behind. -/
theorem advances {α : Type} {f : UInt8 → Reading α} (hf : ∀ b, Forward (f b)) {c d : Cursor}
    {a : α} (h : (Cursor.byte >>= f) c = (.ok a, d)) : d.code = c.code ∧ c.offset < d.offset := by
  have e : (Cursor.byte >>= f) c =
      ExceptT.bindCont f (Cursor.byte c).1 (Cursor.byte c).2 := rfl
  rw [e, Cursor.byte_run] at h
  split at h
  · rename_i b _
    have := hf b { c with offset := c.offset + 1 }
    rw [show f b { c with offset := c.offset + 1 } = (.ok a, d) from h] at this
    exact ⟨this.1, this.2⟩
  · cases h

end Forward

/-- An instruction takes at least one byte. -/
theorem Instruction.decode_advances {c d : Cursor} {i : Instruction}
    (h : Instruction.decode c = (.ok i, d)) : d.code = c.code ∧ c.offset < d.offset :=
  Forward.advances (f := fun b => do
    let opcode := Opcode.ofByte b
    Instruction.decodeRest opcode (← opcode.commandAt c.offset))
    (fun _ => (Forward.lift _).bind fun _ => Forward.decodeRest _ _) h

/-! ## Bodies -/

/-- What a body reads as: its instructions, each with its offset, and how the reading ended. -/
structure Disassembly where
  instructions : List (Nat × Instruction)
  /-- Where the reading ended. -/
  stop : Nat
  /-- Why it ended, unless the body was at its end. -/
  fault : Option Fault

namespace Disassembly

/-- Reads instructions until the code ends or one of them cannot be read. -/
def ofCursor (c : Cursor) : Disassembly :=
  if c.atEnd then ⟨[], c.offset, none⟩
  else match _h : Instruction.decode c with
    | (.ok i, d) =>
      let rest := ofCursor d
      { rest with instructions := (c.offset, i) :: rest.instructions }
    | (.error f, d) => ⟨[], d.offset, some f⟩
termination_by c.code.size - c.offset
decreasing_by
  have := Instruction.decode_advances _h
  simp_all [Cursor.atEnd]
  omega

/-- The disassembly of a body from an offset on. -/
def ofCode (code : Array UInt8) (start : Nat) : Disassembly := ofCursor ⟨code, start⟩

end Disassembly

/-! ## Item by item -/

/-- A body that is being read. -/
structure Decoder where
  cursor : Cursor
  /-- Something could not be read. -/
  failed : Bool := false

namespace Decoder

def ofCode (code : Array UInt8) (start : Nat) : Decoder := { cursor := ⟨code, start⟩ }

/-- Where the decoder has got to. -/
def offset (d : Decoder) : Nat := d.cursor.offset

/-- The next item, which is an instruction with its offset or the reason why it cannot be read, and
the decoder behind it.  There is none at the end of the code and none after a failure. -/
def next (d : Decoder) : Option (Except Fault (Nat × Instruction)) × Decoder :=
  if d.failed || d.cursor.atEnd then (none, d)
  else match Instruction.decode d.cursor with
    | (.ok i, c) => (some (.ok (d.cursor.offset, i)), ⟨c, false⟩)
    | (.error f, c) => (some (.error f), ⟨c, true⟩)

end Decoder

end MessageMachine
