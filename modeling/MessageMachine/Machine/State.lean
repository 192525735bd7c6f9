import MessageMachine.Native
import MessageMachine.Code.Instruction

/-!
# States of the machine

A run of the machine is one top-level send with everything that it sets off.  The machine goes from
state to state in small steps; a state is made of

* a `Session`, what the run as a whole has done so far: the world it acts on and its counters;
* the `Callers`, the handlers that wait for the answer to a send they made;
* a `Control`, what is to be done next.

Nothing is kept on the side.  In particular the stack of running handlers that diagnostics show is
read off the state (`Machine.stack`).

## The life of a send

A send begins in `dispatch`, which checks the limits and the receiver, goes on in `seek`, which
finds a handler, and then in `execute`, which runs the handler statement by statement.  A handler
may hand its message over to the superclass, which is `seek` again.  A failing handler goes through
`abandon`, where the fault is recorded.  All ends in `answer`, which resumes the innermost caller
or, when there is none, halts.
-/

namespace MessageMachine

/-- How a body of code ended. -/
inductive Ending where
  | value (v : Value)
  /-- The message goes to the superclass. -/
  | handOver
  deriving DecidableEq

/-- A handler at work for a send. -/
structure Handling where
  send : Send
  /-- The class that defines the handler. -/
  cls : ClassId
  /-- The superclass of that class. -/
  parent : Option ClassId
  /-- What the clock showed when the handler began. -/
  started : UInt64
  /-- The source line that the handler has reached. -/
  line : UInt32 := 0

/-- The handler as diagnostics show it. -/
def Handling.activation (h : Handling) : Activation :=
  ⟨h.send.receiver, h.cls, h.send.message, h.line⟩

/-- A body of code at work.  Its role is the handling that it is part of; code that was started on
its own has none. -/
structure Execution where
  receiver : ObjectId
  /-- Where the instructions begin, below which no branch may lead. -/
  codeStart : Nat
  /-- The body and the place in it. -/
  cursor : Cursor
  frame : Frame
  role : Option Handling

namespace Execution

/-- A handler that begins to work for a send. -/
def ofHandler (send : Send) (cls : Class) (handler : Handler) (frame : Frame) (started : UInt64) :
    Execution where
  receiver := send.receiver
  codeStart := handler.codeStart
  cursor := ⟨handler.body, handler.codeStart⟩
  frame := frame
  role := some { send, cls := cls.id, parent := cls.parent, started }

def activation? (e : Execution) : Option Activation := e.role.map Handling.activation

/-- The running handlers when `e` runs on top of `below`. -/
def stackOn (e : Execution) (below : List Activation) : List Activation :=
  match e.activation? with
  | some a => a :: below
  | none => below

end Execution

/-- An execution that waits for the answer to a send. -/
structure Caller where
  execution : Execution
  send : Send
  /-- Where the answer goes. -/
  destination : Option Destination

/-- The waiting executions, the innermost first.  Their activations and their number are kept at
hand, so that neither has to be worked out at each send. -/
structure Callers where
  list : List Caller := []
  activations : List Activation := []
  depth : Nat := 0
  activations_eq : activations = list.filterMap fun c => c.execution.activation? := by rfl
  depth_eq : depth = activations.length := by rfl

namespace Callers

/-- One more execution that waits. -/
def push (c : Caller) (cs : Callers) : Callers :=
  match h : c.execution.activation? with
  | some a =>
    { list := c :: cs.list
      activations := a :: cs.activations
      depth := cs.depth + 1
      activations_eq := by simp [h, cs.activations_eq]
      depth_eq := by simp [cs.depth_eq] }
  | none =>
    { list := c :: cs.list
      activations := cs.activations
      depth := cs.depth
      activations_eq := by simp [h, cs.activations_eq]
      depth_eq := cs.depth_eq }

@[simp] theorem list_push (c : Caller) (cs : Callers) : (cs.push c).list = c :: cs.list := by
  unfold push
  split <;> rfl

/-- The innermost execution that waits, and the others. -/
def pop? (cs : Callers) : Option (Caller × Callers) :=
  match h : cs.list with
  | [] => none
  | c :: rest =>
    some (c,
      match ha : c.execution.activation? with
      | some _ =>
        { list := rest
          activations := cs.activations.tail
          depth := cs.depth - 1
          activations_eq := by simp [cs.activations_eq, h, ha]
          depth_eq := by simp [cs.depth_eq] }
      | none =>
        { list := rest
          activations := cs.activations
          depth := cs.depth
          activations_eq := by simp [cs.activations_eq, h, ha]
          depth_eq := cs.depth_eq })

end Callers

/-- What the machine does next. -/
inductive Control where
  /-- A send is checked. -/
  | dispatch (send : Send)
  /-- A handler is looked for in `start` and above.  `again` says that a handler has handed the send
  over already. -/
  | seek (send : Send) (start : ClassId) (again : Bool)
  /-- The next statement is executed. -/
  | execute (e : Execution)
  /-- An execution has failed. -/
  | abandon (e : Execution) (f : Fault)
  /-- The innermost send is answered. -/
  | answer (result : Except Fault Value)
  /-- Nothing is left to do.  Code that was started on its own is given back. -/
  | halted (result : Except Fault Ending) (e : Option Execution)

/-- What a run has done so far. -/
structure Session where
  world : World
  statistics : Statistics := {}
  statements : Nat := 0
  nativeCalls : Nat := 0
  /-- The fault on its way outwards, which has been recorded. -/
  unwinding : Option Fault := none

/-- What a run may consult but not change. -/
structure Environment where
  settings : Settings
  natives : NativeTable

/-- A state of the machine. -/
structure Machine where
  session : Session
  callers : Callers := {}
  control : Control

namespace Machine

/-- The running handlers, the innermost first. -/
def stack (m : Machine) : List Activation :=
  match m.control with
  | .execute e | .abandon e _ => e.stackOn m.callers.activations
  | _ => m.callers.activations

/-- The number of running handlers. -/
def depth (m : Machine) : Nat := m.stack.length

end Machine

end MessageMachine
