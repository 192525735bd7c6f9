import MessageMachine.Code.Disassembly
import MessageMachine.Handler
import MessageMachine.Hex

/-!
# Listings

A listing shows the body of a handler: its header as comments, then a line for each instruction with
its offset, its bytes and its text.  A body that cannot be read to its end has no listing.
-/

namespace MessageMachine

namespace Listing

/-- `s` with `fill` put before it up to a width. -/
def padLeft (width : Nat) (fill : Char) (s : String) : String :=
  String.ofList (List.replicate (width - s.length) fill) ++ s

/-- `s` with blanks put behind it up to a width. -/
def padRight (width : Nat) (s : String) : String :=
  s ++ String.ofList (List.replicate (width - s.length) ' ')

/-- The line of an instruction that stands at `offset` and ends before `next`. -/
def instructionLine (body : Array UInt8) (offset next : Nat) (i : Instruction) : String :=
  padLeft 4 '0' (toString offset) ++ "  " ++
    padRight 24 (Hex.encode (body.extract offset next).toList) ++ " " ++ i.text

/-- The lines of a list of instructions that ends at `stop`. -/
def instructionLines (body : Array UInt8) (stop : Nat) : List (Nat × Instruction) → List String
  | [] => []
  | [(offset, i)] => [instructionLine body offset stop i]
  | (offset, i) :: (next, j) :: rest =>
    instructionLine body offset next i :: instructionLines body stop ((next, j) :: rest)

/-- The line of a declared parameter. -/
def parameterLine (p : Parameter) : String :=
  "; parm $" ++ toString p.id ++ " = " ++ p.default.text

end Listing

namespace Handler

/-- The instructions of a handler. -/
def disassembly (h : Handler) : Disassembly := .ofCode h.body h.codeStart

/-- The lines of a listing, or what keeps the body from being read. -/
def listingLines (h : Handler) : Except Fault (List String) :=
  let d := h.disassembly
  match d.fault with
  | some f => .error f
  | none =>
    .ok <|
      ("; " ++ toString h.locals ++ " locals, " ++ toString h.parameters.length ++
        " parameters") ::
      h.parameters.map Listing.parameterLine ++
      Listing.instructionLines h.body d.stop d.instructions

/-- The listing as one text.  Each line ends with a line feed. -/
def listing (h : Handler) : Except Fault String :=
  h.listingLines.map fun lines => String.join (lines.map (· ++ "\n"))

end Handler

end MessageMachine
