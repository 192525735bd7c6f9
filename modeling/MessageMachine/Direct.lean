import MessageMachine.Engine

/-!
# Code on its own

For testing code there are two ways to run it outside of any send: a whole body, or a single call.
Either acts on the engine's world, but has statistics and a queue of posts of its own, and no
handler counts as running below it.

A single call ends when its value has been written.  Its faults are not recorded, except that a call
with too many operands always is.
-/

namespace MessageMachine

/-- What is left of code that was run on its own. -/
structure DirectRun (α : Type) where
  result : Except Fault α
  /-- The code where it ended, with its frame. -/
  execution : Execution
  session : Session
  /-- The handlers that were still running at the end. -/
  depth : Nat

namespace Engine

/-- The session of code that is run on its own. -/
def directSession (e : Engine) : Session where
  world := { e.world with posts := { capacity := e.settings.postCapacity } }

/-- The engine after such a session. -/
def afterDirect (e : Engine) (s : Session) : Engine :=
  { e with world := { s.world with posts := e.world.posts } }

/-- Runs a handler's body for `receiver` in the given frame. -/
def runBody (e : Engine) (receiver : ObjectId) (handler : Handler) (frame : Frame) :
    DirectRun Ending × Engine :=
  let start : Execution :=
    { receiver
      codeStart := handler.codeStart
      cursor := ⟨handler.body, handler.codeStart⟩
      frame
      role := none }
  let m := (Machine.ofExecution e.directSession start).run e.environment
  let (result, execution) :=
    match m.control with
    | .halted result (some execution) => (result, execution)
    | _ => (.error .missingReturn, start)
  (⟨result, execution, m.session, m.depth⟩, e.afterDirect m.session)

/-- Runs a single call for `receiver` in the given frame.  The code begins behind the opcode. -/
def runCall (e : Engine) (receiver : ObjectId) (opcode : Opcode) (code : Array UInt8)
    (frame : Frame) : DirectRun Unit × Engine :=
  let env := e.environment
  let start : Execution := { receiver, codeStart := 0, cursor := { code }, frame, role := none }
  let m := Machine.ofExecution e.directSession start
  let (result, moment) := Action.call (m.scope env 0) opcode (m.session.moment start)
  let m := m.settle env result moment
  let m :=
    match result with
    | .error (.tooManyPositional n) =>
      { m with session := m.session.report [] (.tooManyPositional n) }
    | .error (.tooManyNamed n) => { m with session := m.session.report [] (.tooManyNamed n) }
    | _ => m.runUntil env Machine.isBack
  let (result, execution) :=
    match m.control with
    | .execute execution => (.ok (), execution)
    | .abandon execution f => (.error f, execution)
    | _ => (.error .missingReturn, start)
  (⟨result, execution, m.session, m.callers.depth⟩, e.afterDirect m.session)

end Engine

end MessageMachine
