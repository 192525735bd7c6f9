import MessageMachine.Machine.Step

/-!
# Runs of the machine

A run repeats the step of the machine until it halts.  That it does so is `potential_step`: the
potential of the state falls with every step, and the recursion is on it.
-/

namespace MessageMachine

namespace Machine

/-- Runs until the machine halts or reaches a state at which `stop` says so. -/
def runUntil (env : Environment) (stop : Machine → Bool) (m : Machine) : Machine :=
  if _h : m.control.isHalted = false then
    if stop m then m else runUntil env stop (m.step env)
  else m
termination_by m.potential env
decreasing_by exact potential_step env m _h

/-- Runs until the machine halts. -/
def run (env : Environment) (m : Machine) : Machine := m.runUntil env fun _ => false

/-- A run ends in a state that has halted. -/
theorem isHalted_run (env : Environment) (m : Machine) : (m.run env).control.isHalted = true := by
  unfold run
  fun_induction runUntil env (fun _ => false) m with
  | case1 _ _ h => cases h
  | case2 _ _ _ ih => exact ih
  | case3 m h => simpa using h

/-- A machine about to run a send from the top. -/
def ofSend (session : Session) (send : Send) : Machine :=
  { session, control := .dispatch send }

/-- A machine about to run code on its own. -/
def ofExecution (session : Session) (e : Execution) : Machine :=
  { session, control := .execute e }

/-- Has the control come back to the code that the machine was started on? -/
def isBack (m : Machine) : Bool :=
  m.callers.list.isEmpty && (m.control matches .execute _ | .abandon ..)

/-- The answer of a machine that has halted.  A message that was handed over by the last superclass
is answered with nil. -/
def result (m : Machine) : Except Fault Value :=
  match m.control with
  | .halted (.ok (.value v)) _ => .ok v
  | .halted (.error f) _ => .error f
  | _ => .ok .nil

end Machine

end MessageMachine
