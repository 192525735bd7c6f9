import Mathlib.Logic.Relation
import MessageMachine.Proofs.Code.Clean
import MessageMachine.Proofs.Nil
import MessageMachine.Proofs.Statement.Continuity
import MessageMachine.Proofs.Statement.Invocation

/-!
# Statements and plain values

A statement takes values from four places: the frame, the properties of its receiver, the variables
of a class, and its own code.  If all values of the first three are plain, and the constants among
its operands are, then it leaves only plain values behind, and so are the arguments of a send that
it makes and the value that it returns (`Action.plain_statement`).

Which constants a run may come to is a question about the code alone.  `Cursor.Flows` leads from an
instruction to the one behind it and to its target, whatever is computed; a place is *plain ahead*
when no place that it leads to has a constant operand that is not plain (`Cursor.PlainAhead`).
-/

namespace MessageMachine

/-! ## Where code leads -/

namespace Cursor

/-- The operands of the statement at this place.  Where no instruction can be read, these are the
ones that are fetched before the reading fails. -/
def operands (c : Cursor) : List Operand :=
  match Instruction.decode c with
  | (.ok i, _) => i.operands
  | (.error _, _) => Instruction.parametersRead c

/-- Behind the instruction at `c`, or at its target. -/
def Flows (c c' : Cursor) : Prop :=
  ∃ i next, Instruction.decode c = (.ok i, next) ∧
    (c' = next ∨ ∃ t, i.target? = some t ∧ c' = { next with offset := t.toNat })

/-- No constant that the code may come to from here is a nil with a payload. -/
def PlainAhead (c : Cursor) : Prop :=
  ∀ c', Relation.ReflTransGen Flows c c' → ∀ o ∈ c'.operands, o.Plain

theorem PlainAhead.operands {c : Cursor} (h : c.PlainAhead) : ∀ o ∈ c.operands, o.Plain := h c .refl

theorem PlainAhead.flow {c c' : Cursor} (h : c.PlainAhead) (flows : c.Flows c') : c'.PlainAhead :=
  fun c'' leads => h c'' (.head flows leads)

end Cursor

/-! ## Plain moments -/

/-- Everything that a statement can reach is plain, and the execution stands at `c`. -/
structure Moment.PlainAt (c : Cursor) (m : Moment) : Prop where
  world : m.world.Plain
  frame : m.execution.frame.Plain
  cursor : m.execution.cursor = c

/-- A value that is returned is plain. -/
def Ending.Plain : Ending → Prop
  | .value v => v.Plain
  | .handOver => True

/-- What is sent or returned is plain. -/
def Next.Plain : Next → Prop
  | .proceed => True
  | .await send _ => send.Plain
  | .leave ending => ending.Plain

namespace Moment.PlainAt

variable {c : Cursor} {m : Moment}

theorem opened (h : m.PlainAt c) (scope : Scope) : (Action.opened scope m).PlainAt c := by
  unfold Action.opened
  split
  · exact h
  · split
    · exact ⟨h.world.of_eq rfl rfl rfl, h.frame, h.cursor⟩
    · exact h

theorem moveTo (h : m.PlainAt c) (c' : Cursor) : (m.moveTo c').PlainAt c' := ⟨h.world, h.frame, rfl⟩

end Moment.PlainAt

/-- The standard functions make plain values of plain values. -/
theorem Native.IsStandard.keepsPlain {n : Native} (h : n.IsStandard) : n.KeepsPlain := by
  intro c w hc hw
  rcases h with h | h | h
  · rw [h]
    dsimp only [sendMessage]
    cases described : c.send with
    | ok s => exact ⟨hc.send described, hw⟩
    | error f => exact ⟨trivial, hw⟩
  · rw [h]
    dsimp only [postMessage]
    cases described : c.send with
    | error f => exact ⟨trivial, hw⟩
    | ok s =>
      dsimp only
      cases pushed : w.posts.push? s with
      | none => exact ⟨.of_int _, hw.of_eq rfl rfl rfl⟩
      | some posts =>
        refine ⟨.of_int _, hw.objects, hw.vars, fun s' mem => ?_⟩
        unfold PostQueue.push? at pushed
        split at pushed
        · cases pushed
          rcases List.mem_append.mp mem with old | new
          · exact hw.posts s' old
          · rw [List.mem_singleton.mp new]
            exact hc.send described
        · cases pushed
  · rw [h]
    exact ⟨.nil, hw.of_eq rfl rfl rfl⟩

theorem NativeTable.IsStandard.keepsPlain {t : NativeTable} (h : t.IsStandard) : t.KeepsPlain :=
  fun index n slot => (h index n slot).keepsPlain

namespace Action

/-- From plain moments the action leads to plain moments, without moving the execution, and its
results satisfy `Q`. -/
abbrev Purely {α : Type} (Q : α → Prop) (a : Action α) : Prop :=
  ∀ c, Keeps (Moment.PlainAt c) Q a

namespace Purely

theorem fetchOperand {o : Operand} (h : o.Plain) : Purely Value.Plain (Action.fetchOperand o) := by
  intro c m hm
  obtain ⟨world, value⟩ := hm.world.read m.execution.receiver hm.frame h
  rw [Action.fetchOperand, fetch_run, fetched]
  generalize m.world.read m.execution.receiver m.execution.frame o.kind o.data = outcome
    at world value
  obtain ⟨f | v, w⟩ := outcome
  · exact ⟨⟨world, hm.frame, hm.cursor⟩, value⟩
  · dsimp only
    split
    · exact ⟨⟨world.of_eq rfl rfl rfl, hm.frame, hm.cursor⟩, value⟩
    · exact ⟨⟨world, hm.frame, hm.cursor⟩, value⟩

theorem fetchNamed {n : NamedOperand} (h : n.operand.Plain) :
    Purely (fun a => a.value.Plain) (Action.fetchNamed n) :=
  fun c => (fetchOperand h c).bind fun _ hv => .pure hv

theorem assign (d : Destination) {v : Value} (hv : v.Plain) :
    Purely (fun _ => True) (Action.assign d v) := by
  intro c m hm
  obtain ⟨world, frame⟩ := hm.world.write m.execution.receiver d.index hm.frame hv d.place
  rw [assign_run]
  generalize m.world.write m.execution.receiver m.execution.frame d.place.kind d.index v = outcome
    at world frame
  match outcome with
  | (.error f, w) => exact ⟨⟨world, hm.frame, hm.cursor⟩, fun _ _ => trivial⟩
  | (.ok frame', w) => exact ⟨⟨world, frame frame' rfl, hm.cursor⟩, fun _ _ => trivial⟩

theorem assignIf (destination : Option Destination) {v : Value} (hv : v.Plain) :
    Purely (fun _ => True) (Action.assignIf destination v) := by
  cases destination with
  | none => exact fun c => .pure trivial
  | some d => exact assign d hv

theorem setLine (line : UInt32) : Purely (fun _ => True) (Action.setLine line) :=
  fun _ _ hm => ⟨⟨hm.world, hm.frame, hm.cursor⟩, fun _ _ => trivial⟩

theorem invoke (scope : Scope) (index : UInt8) {native : Native} (h : native.KeepsPlain)
    {positional : List Value} {named : List Argument} (values : ∀ v ∈ positional, v.Plain)
    (arguments : ∀ a ∈ named, a.value.Plain) :
    Purely Reply.Plain (Action.invoke scope index native positional named) := by
  intro c m hm
  rw [invoke_eq]
  obtain ⟨reply, world⟩ := h (seenCall scope native positional named (countedCall index native m))
    (countedCall index native m).world ⟨hm.frame, values, arguments⟩ (hm.world.of_eq rfl rfl rfl)
  exact ⟨⟨world, hm.frame, hm.cursor⟩, fun _ same => by cases same; exact reply⟩

theorem conclude (scope : Scope) (hn : scope.environment.natives.KeepsPlain) (index : UInt8)
    (destination : Option Destination) {positional : List Value} {named : List Argument}
    (values : ∀ v ∈ positional, v.Plain) (arguments : ∀ a ∈ named, a.value.Plain) :
    Purely Next.Plain (Action.conclude scope index destination positional named) := by
  intro c
  unfold Action.conclude
  cases slot : scope.environment.natives.slot index with
  | none => exact .throw _
  | some native =>
    refine (invoke scope index (hn index native slot) values arguments c).bind fun reply plain => ?_
    cases reply with
    | value v => exact (assignIf destination plain c).bind fun _ _ => .pure trivial
    | fault f => exact .throw _
    | send s => exact .pure plain

/-- **An instruction that does not branch** makes plain values of plain values. -/
theorem perform (scope : Scope) (hn : scope.environment.natives.KeepsPlain) {i : Instruction}
    (straight : i.target? = none) (operands : ∀ o ∈ i.operands, o.Plain) :
    Purely Next.Plain (Action.perform scope i) := by
  intro c
  cases i with
  | unary op destination source =>
    exact (fetchOperand (operands source (by simp [Instruction.operands])) c).bind fun v hv =>
      (Keeps.lift fun r hr => op.plain_of_apply hv hr).bind fun r hr =>
        (assign destination hr c).bind fun _ _ => .pure trivial
  | binary op destination left right =>
    exact (fetchOperand (operands left (by simp [Instruction.operands])) c).bind fun l _ =>
      (fetchOperand (operands right (by simp [Instruction.operands])) c).bind fun r _ =>
        (Keeps.lift fun v hv => op.plain_of_apply hv).bind fun v hv =>
          (assign destination hv c).bind fun _ _ => .pure trivial
  | goto | gotoIf => cases straight
  | call index destination positional named =>
    refine (Keeps.mapM fun o mem => fetchOperand (operands o ?_) c).bind fun values hv =>
      (Keeps.mapM fun n mem => fetchNamed (operands n.operand ?_) c).bind fun arguments ha =>
        conclude scope hn index destination hv ha c
    · exact List.mem_append_left _ (List.mem_append_right _ mem)
    · exact List.mem_append_right _ (List.mem_map_of_mem mem)
  | handOver => exact .pure trivial
  | leave value =>
    exact (fetchOperand (operands value List.mem_cons_self) c).bind fun v hv => .pure hv
  | line number => exact (setLine number c).bind fun _ _ => .pure trivial

end Purely

section

variable {scope : Scope} {c : Cursor} {m m' : Moment} {x : Except Fault Next} {i : Instruction}

/-- What follows a jump, taken or not. -/
theorem plain_jumpIf {taken : Bool} {target : UInt32} (hm : m.PlainAt c)
    (run : (jumpIf taken target >>= fun _ => pure .proceed) m = (x, m')) :
    ∃ c', m'.PlainAt c' ∧ ∀ next, x = .ok next →
      next.Plain ∧ (c' = c ∨ c' = { c with offset := target.toNat }) := by
  cases taken with
  | false =>
    cases run
    exact ⟨c, hm, fun next same => by cases same; exact ⟨trivial, .inl rfl⟩⟩
  | true =>
    have jumps : jump target m =
        (if target.toNat < m.execution.codeStart then
          throw (.branchOutOfRange target.toNat m.execution.cursor.code.size)
        else reading (Cursor.seek target.toNat) : Action Unit) m := rfl
    rw [jumpIf, if_pos rfl] at run
    split at jumps
    · rw [bind_of_error jumps] at run
      cases run
      exact ⟨c, hm, fun next same => by cases same⟩
    · rw [reading_run, Cursor.seek_run, hm.cursor] at jumps
      split at jumps
      · rw [bind_of_ok jumps] at run
        cases run
        exact ⟨_, hm.moveTo _, fun next same => by cases same; exact ⟨trivial, .inr rfl⟩⟩
      · rw [bind_of_error jumps] at run
        cases run
        exact ⟨c, hm.moveTo c, fun next same => by cases same⟩

/-- **An instruction** makes plain values of plain values, and leaves the execution behind it or
at its target. -/
theorem plain_perform (hn : scope.environment.natives.KeepsPlain)
    (operands : ∀ o ∈ i.operands, o.Plain) (hm : m.PlainAt c)
    (run : perform scope i m = (x, m')) :
    ∃ c', m'.PlainAt c' ∧ ∀ next, x = .ok next →
      next.Plain ∧ (c' = c ∨ ∃ t, i.target? = some t ∧ c' = { c with offset := t.toNat }) := by
  cases i with
  | goto target =>
    have run : (jumpIf true target >>= fun _ => pure .proceed) m = (x, m') := run
    obtain ⟨c', plain, follows⟩ := plain_jumpIf hm run
    exact ⟨c', plain, fun next same => (follows next same).imp_right
      (Or.imp_right fun there => ⟨target, rfl, there⟩)⟩
  | gotoIf wanted target condition =>
    have kept := Purely.fetchOperand (operands condition List.mem_cons_self) c
    simp only [perform] at run
    generalize fetched : fetchOperand condition m = outcome
    obtain ⟨f | value, m₁⟩ := outcome
    · rw [bind_of_error fetched] at run
      cases run
      exact ⟨c, (kept.of_run hm fetched).1, fun next same => by cases same⟩
    · rw [bind_of_ok fetched] at run
      obtain ⟨c', plain, follows⟩ := plain_jumpIf (kept.of_run hm fetched).1 run
      exact ⟨c', plain, fun next same => (follows next same).imp_right
        (Or.imp_right fun there => ⟨target, rfl, there⟩)⟩
  | _ =>
    obtain ⟨plain, results⟩ := (Purely.perform scope hn rfl operands c).of_run hm run
    exact ⟨c, plain, fun next same => ⟨results next same, .inl rfl⟩⟩

/-- **A statement makes plain values of plain values**, if the constants among its operands are
plain: all that it leaves behind is plain, and what it sends or returns.  It leaves its execution
where the code leads. -/
theorem plain_statement (hn : scope.environment.natives.KeepsPlain) (world : m.world.Plain)
    (frame : m.execution.frame.Plain) (operands : ∀ o ∈ m.execution.cursor.operands, o.Plain)
    (run : statement scope m = (x, m')) :
    m'.world.Plain ∧ m'.execution.frame.Plain ∧ ∀ next, x = .ok next →
      next.Plain ∧ m.execution.cursor.Flows m'.execution.cursor := by
  have opened : (opened scope m).PlainAt m.execution.cursor :=
    Moment.PlainAt.opened ⟨world, frame, rfl⟩ scope
  unfold Cursor.operands at operands
  generalize decoded : Instruction.decode m.execution.cursor = outcome at operands
  match outcome with
  | (.error f, stop) =>
    obtain ⟨place, -, same, -⟩ := (statement_agrees_of_error scope decoded).exists_place
    have kept : Keeps (Moment.PlainAt stop) (fun _ => False)
        ((Instruction.parametersRead m.execution.cursor).mapM fetchOperand >>=
          fun _ => (throw f : Action Next)) :=
      (Keeps.mapM fun o mem => Purely.fetchOperand (operands o mem) stop).bind fun _ _ => .throw f
    obtain ⟨plain, never⟩ := kept _ (opened.moveTo stop)
    rw [run] at same
    cases same
    exact ⟨plain.world, plain.frame, fun next same => (never next same).elim⟩
  | (.ok i, behind) =>
    obtain ⟨place, -, same, stays⟩ := (statement_agrees_of_ok scope decoded).exists_place
    generalize performed : perform scope i ((Action.opened scope m).moveTo behind) = result
      at same stays
    obtain ⟨x', after⟩ := result
    obtain ⟨c', plain, follows⟩ := plain_perform hn operands (opened.moveTo behind) performed
    rw [run] at same
    cases same
    refine ⟨plain.world, plain.frame, fun next same => ?_⟩
    obtain ⟨sends, there⟩ := follows next same
    refine ⟨sends, i, behind, decoded, ?_⟩
    rw [stays next same, Moment.moveTo_cursor, plain.cursor]
    exact there

end

end Action

end MessageMachine
