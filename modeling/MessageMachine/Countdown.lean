import MessageMachine.Engine
import MessageMachine.Code.Assembly

/-!
# The countdown script

A small script that uses most of the machine.  A countdown object has two properties: itself, and
the number of ticks so far.  It handles three messages.

* `Tick(n)` shows `n`; unless `n` is zero it ticks for `n - 1` first; then it counts a tick.
* `Count(n)` adds up the numbers from `n` down to one in a loop, ticks for three by a nested send,
  posts a report, and returns the sum.
* `Report()` shows the number of ticks and returns it.
-/

namespace MessageMachine

namespace Countdown

def tick : MessageId := ⟨1⟩
def count : MessageId := ⟨2⟩
def report : MessageId := ⟨3⟩

/-- The parameter of `Tick` and `Count`. -/
def number : ParameterId := ⟨1⟩

/-- The object itself, kept in its first property. -/
def itself : Operand := .ofProperty 0

/-- The number of ticks, kept in the second property. -/
def ticks : Operand := .ofProperty 1

/-- The slots of the standard native functions. -/
def sendSlot : UInt8 := 0

@[inherit_doc sendSlot] def postSlot : UInt8 := 1

@[inherit_doc sendSlot] def debugSlot : UInt8 := 2

open Assembler in
def tickCode : Assembler Unit := do
  let n ← parameter number (.int 0)
  let next ← plainLocal 0
  line 1
  call debugSlot none [.ofLocal n] []
  let done ← gotoIfFalse (.ofLocal n)
  line 2
  binary .subtract (.ofLocal next) (.ofLocal n) (← constant (.int 1))
  call sendSlot none [itself, ← constant (.message tick)] [⟨number, .ofLocal next⟩]
  bindLabel done
  line 3
  binary .add (.ofProperty 1) ticks (← constant (.int 1))
  leave ticks

open Assembler in
def countCode : Assembler Unit := do
  let n ← parameter number (.int 0)
  let sum ← plainLocal 0
  load (.ofLocal sum) (.int 0)
  let top ← offset
  let done ← gotoIfFalse (.ofLocal n)
  binary .add (.ofLocal sum) (.ofLocal sum) (.ofLocal n)
  binary .subtract (.ofLocal n) (.ofLocal n) (← constant (.int 1))
  gotoBack top
  bindLabel done
  call sendSlot none [itself, ← constant (.message tick)] [⟨number, ← constant (.int 3)⟩]
  call postSlot none [itself, ← constant (.message report)] []
  leave (.ofLocal sum)

open Assembler in
def reportCode : Assembler Unit := do
  call debugSlot none [ticks] []
  leave ticks

/-- The class of countdown objects. -/
def cls : Except AssemblyFault Class := do
  let tickHandler ← tickCode.toHandler 1 tick "Tick"
  let countHandler ← countCode.toHandler 1 count "Count"
  let reportHandler ← reportCode.toHandler 0 report "Report"
  return {
    id := ⟨1⟩
    name := "Countdown"
    properties := [⟨⟨1⟩, .nil⟩, ⟨⟨2⟩, .int 0⟩]
    handlers := [tickHandler, countHandler, reportHandler] }

end Countdown

end MessageMachine
