/-!
# Decimal numbers on a command line

An optional sign and at least one digit, nothing else.  Numbers out of range are refused.
-/

namespace MessageMachine

namespace Text

/-- The number that a list of decimal digits stands for. -/
def digits? (cs : List Char) : Option Nat :=
  if cs ≠ [] ∧ cs.all (fun c => '0' ≤ c && c ≤ '9') then
    some (cs.foldl (fun n c => 10 * n + (c.toNat - 48)) 0)
  else none

/-- A number below `bound`, perhaps with a plus sign. -/
def natural? (bound : Nat) (s : String) : Option Nat :=
  let n? :=
    match s.toList with
    | '+' :: cs => digits? cs
    | cs => digits? cs
  n?.filter fun n => n < bound

/-- A number of at least `-bound` and below `bound`, perhaps with a sign. -/
def integer? (bound : Nat) (s : String) : Option Int :=
  let i? : Option Int :=
    match s.toList with
    | '+' :: cs => (digits? cs).map Int.ofNat
    | '-' :: cs => (digits? cs).map fun n => -Int.ofNat n
    | cs => (digits? cs).map Int.ofNat
  i?.filter fun i => -(bound : Int) ≤ i ∧ i < bound

end Text

end MessageMachine
