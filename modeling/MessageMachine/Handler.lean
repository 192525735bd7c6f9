import MessageMachine.Code.Cursor
import MessageMachine.Value.Packed
import MessageMachine.Frame

/-!
# Handlers

A handler is the code that a class runs for a message.  Its body begins with a header: a byte with
the number of plain locals, a byte with the number of parameters, and for each parameter two words,
its number and the packed constant that it takes when it is not passed.  The instructions follow.
Targets of gotos count from the start of the body, header included.

A frame for the handler has the parameters first, in the order of the header, and the plain locals
after them.  That all of them fit a frame is checked when the body is read (`frameSize_le`), so
binding arguments cannot fail.
-/

namespace MessageMachine

/-- A value passed under a name. -/
structure Argument where
  name : ParameterId
  value : Value
  deriving DecidableEq, Inhabited

/-- A parameter that a handler declares, with the value it takes when it is not passed. -/
structure Parameter where
  id : ParameterId
  default : Value
  deriving DecidableEq, Inhabited

namespace Parameter

/-- Reads an entry of the parameter table. -/
def decode : Reading Parameter := do
  let id ← Cursor.word
  return ⟨⟨id⟩, .ofPacked (← Cursor.word)⟩

/-- The value that a parameter takes: the first argument of its name, or its default. -/
def valueIn (p : Parameter) (arguments : List Argument) : Value :=
  match arguments.find? fun a => a.name = p.id with
  | some a => a.value
  | none => p.default

end Parameter

/-- What the header of a body says. -/
structure Header where
  /-- The number of plain locals. -/
  locals : Nat
  parameters : List Parameter
  frameSize_le : locals + parameters.length ≤ Limits.locals

/-- Reads a header.  The sum of the two counts is checked before the table of parameters is read. -/
def Header.decode : Reading Header := do
  let locals ← Cursor.byte
  let count ← Cursor.byte
  if h : locals.toNat + count.toNat ≤ Limits.locals then
    let table ← collect Parameter.decode count.toNat
    return {
      locals := locals.toNat
      parameters := table.val
      frameSize_le := by simpa [table.property] using h }
  else throw (.tooManyLocals (locals.toNat + count.toNat))

/-- The code that a class runs for a message. -/
structure Handler extends Header where
  id : MessageId
  name : String
  body : Array UInt8

namespace Handler

/-- The handler with a given body. -/
def ofBody (id : MessageId) (name : String) (body : Array UInt8) : Except Fault Handler :=
  match (Header.decode { code := body }).1 with
  | .ok header => .ok { header with id, name, body }
  | .error f => .error f

/-- Where the instructions begin. -/
def codeStart (h : Handler) : Nat := 2 + 8 * h.parameters.length

/-- The number of locals, parameters included. -/
def frameSize (h : Handler) : Nat := h.locals + h.parameters.length

/-- The frame in which the handler runs when it is sent the given arguments. -/
def bind (h : Handler) (track : Bool) (arguments : List Argument) : Frame where
  slots := (h.parameters.map (fun p => Slot.mk (p.valueIn arguments) true) ++
    List.replicate h.locals (Frame.blank track)).toArray
  size_le := by
    have := h.frameSize_le
    simp
    omega

end Handler

end MessageMachine
