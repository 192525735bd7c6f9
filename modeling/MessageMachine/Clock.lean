/-!
# Clocks

A clock shows milliseconds, as a 64-bit count that starts over when it is full.  It moves in
two ways: its keeper sets it or moves it on, and it may run by itself.  How far it has run when
it is read for the `n`-th time is its *course*; a clock with a course of zero moves only when
it is told to.
-/

namespace MessageMachine

/-- A millisecond clock. -/
structure Clock where
  base : UInt64 := 0
  /-- How far the clock has run by itself at each reading. -/
  course : Nat → UInt64 := fun _ => 0
  /-- The number of readings so far. -/
  readings : Nat := 0

namespace Clock

/-- A clock that moves only when it is told to. -/
def manual (start : UInt64) : Clock := { base := start }

/-- What the clock shows. -/
def now (c : Clock) : UInt64 := c.base + c.course c.readings

/-- Reads the clock. -/
def read (c : Clock) : UInt64 × Clock := (c.now, { c with readings := c.readings + 1 })

def advance (c : Clock) (millis : UInt64) : Clock := { c with base := c.base + millis }

def set (c : Clock) (millis : UInt64) : Clock :=
  { c with base := millis - c.course c.readings }

/-- The time from one reading to a later one; none if the later one is lower. -/
def elapsed (started ended : UInt64) : UInt64 := if started ≤ ended then ended - started else 0

end Clock

end MessageMachine
