/-!
# Limits and settings

The fixed ceilings of the machine, and the settings that its keeper may change between sends.
-/

namespace MessageMachine

namespace Limits

/-- The most locals one frame holds, parameters included. -/
def locals : Nat := 50

/-- The most positional operands one call passes. -/
def positional : Nat := 40

/-- The most named operands one call or send passes. -/
def named : Nat := 45

/-- The most classes that a search for a handler looks at. -/
def classChain : Nat := 256

/-- The number of slots for native functions. -/
def natives : Nat := 256

end Limits

/-- What the keeper of an engine can choose.  A change counts from the next top-level send on. -/
structure Settings where
  /-- The statements one top-level send may execute, nested sends included. -/
  maxStatements : Nat := 50000
  /-- The handlers that may run inside one another. -/
  maxDepth : Nat := 2000
  /-- The posts that may wait at once. -/
  postCapacity : Nat := 1000
  /-- Warn about reads of locals that were never written. -/
  trackLocals : Bool := false
  /-- Keep the running time of each handler. -/
  profile : Bool := false
  /-- Record each executed instruction. -/
  traceInstructions : Bool := false
  deriving DecidableEq, Inhabited

end MessageMachine
