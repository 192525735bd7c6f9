import MessageMachine.CommandLine

/-!
# The program

Reads the command line, writes what it leads to, and exits.
-/

open MessageMachine

def main (arguments : List String) : IO UInt32 := do
  let outcome := CommandLine.perform arguments
  for line in outcome.output do
    IO.println line
  for line in outcome.errors do
    IO.eprintln line
  return outcome.code
