import MessageMachine.Proofs.Code.Counts
import MessageMachine.Proofs.Statement.Invocation

/-!
# Making a call as it was written

A call that the assembler wrote is made as it was written, or it fails before any native function is
run, as long as it can be recognized in the code (`Instruction.recognized_call_made`).  Whether it
can is a question about the lengths of its two lists of operands alone.

A call that cannot be recognized may be made with fewer operands.  When its positional operands are
within the limit, these are the first of the named ones (`Instruction.call_cut_made`), and what is
left of them is executed next.
-/

namespace MessageMachine

namespace Instruction

/-- The place of an instruction between other code. -/
def place (i : Instruction) (before after : List UInt8) : Cursor :=
  ⟨(before ++ i.bytes ++ after).toArray, before.length⟩

/-- The place behind an instruction. -/
def behind (i : Instruction) (before after : List UInt8) : Cursor :=
  { i.place before after with offset := before.length + i.bytes.length }

variable (native : UInt8) (destination : Option Destination) (positional : List Operand)
  (named : List NamedOperand) (before after : List UInt8)

/-- A call that is read from the code is made with the operands that were read. -/
theorem made_of_read {c next : Cursor}
    (read : decode c = (.ok (call native destination positional named), next)) (scope : Scope)
    (m : Moment) :
    Agrees (Action.statement scope (m.moveTo c))
      ((Action.fetchAll positional named >>= fun (values, arguments) =>
        Action.conclude scope native destination values arguments)
        ((Action.opened scope (m.moveTo c)).moveTo next)) := by
  have agrees := Action.statement_agrees_of_ok scope (m := m.moveTo c) read
  rwa [Action.perform_call] at agrees

/-- **A call whose named operands are cut** is made with the first of them. -/
theorem call_cut_made (fits : positional.length ≤ Limits.positional)
    (cut : named.length % 256 ≤ Limits.named) (scope : Scope) (m : Moment) :
    let c := (call native destination positional named).place before after
    ∃ next, Agrees (Action.statement scope (m.moveTo c))
      ((Action.fetchAll positional (named.take (named.length % 256)) >>=
        fun (values, arguments) => Action.conclude scope native destination values arguments)
        ((Action.opened scope (m.moveTo c)).moveTo next)) := by
  intro c
  obtain ⟨next, read⟩ := reads_call_cut native destination positional named fits cut before after
  exact ⟨next, made_of_read native destination positional _ read scope m⟩

/-- **A call is recognized or mistaken by the lengths of its lists.**  Where the assembler wrote a
call, it is read as itself or refused for one of its counts just if the byte for the positional
operands is above the limit, or they keep within it and the named operands keep within theirs or
have a byte above it.

A call that is so recognized is made with just its operands, whatever native function is called and
whatever code stands around the call, or its statement fails having changed at most caches, the
journal and its own place: no function was run or counted. -/
theorem recognized_call_made (scope : Scope) (m : Moment) :
    let i := call native destination positional named
    let c := i.place before after
    (i.Recognized c ↔
      Limits.positional < positional.length % 256 ∨
        positional.length ≤ Limits.positional ∧
          (named.length ≤ Limits.named ∨ Limits.named < named.length % 256)) ∧
    (i.Recognized c →
      Agrees (Action.statement scope (m.moveTo c))
        ((Action.fetchAll positional named >>= fun (values, arguments) =>
          Action.conclude scope native destination values arguments)
          ((Action.opened scope (m.moveTo c)).moveTo (i.behind before after))) ∨
      ∃ f m' stop, Action.statement scope (m.moveTo c) = (.error f, m') ∧
        (m.moveTo stop).Looked m') := by
  intro i c
  refine ⟨recognized_call_iff native destination positional named before after, ?_⟩
  rintro (read | ⟨f, stop, refused, -⟩)
  · exact .inl (made_of_read native destination positional named read scope m)
  · obtain ⟨g, m', stop, fails, looked, -⟩ := Action.statement_fails scope (m := m.moveTo c) refused
    exact .inr ⟨g, m', stop, fails, looked⟩

/-- A call with 256 operands is read as one without any, and what is read next is the inside of the
first operand.  Its statement shows the call that was read to the native function, which knows
nothing of the operands. -/
theorem call_of_256_mistaken :
    let i := call 2 none (List.replicate 256 ⟨.localVar, 0⟩) []
    (decode (i.place [] [])).1 = .ok (call 2 none [] []) ∧ (decode (i.place [] [])).2.offset = 4 ∧
      ¬ i.Recognized (i.place [] []) := by
  intro i
  have read : (decode (i.place [] [])).1 = .ok (call 2 none [] []) := by decide +kernel
  refine ⟨read, by decide +kernel, ?_⟩
  rintro (same | ⟨f, stop, refused, -⟩)
  · rw [same] at read
    exact absurd read (by decide +kernel)
  · rw [refused] at read
    cases read

end Instruction

end MessageMachine
