import MessageMachine.Proofs.Code.Header
import MessageMachine.Proofs.Code.Layout
import MessageMachine.Proofs.Machine.Returning
import MessageMachine.Proofs.Statement.Extent
import MessageMachine.Proofs.Statement.Lockstep

/-!
# Where an execution stands

Goto instructions name their targets as arbitrary words, and nothing checks them before
they are taken.  This module shows that no code can make use of that to leave the place
where its instructions are.

A handler that has been accepted has its header in front of its code, and the code begins no
later than the body ends.  Each time its execution is about to execute a statement it stands
between these two (`Handler.Confines`).  What a statement reads extends up to the end of the body
at most, and a jump leads to an offset at which there is a byte of the code, or it fails; both
have been seen for single statements.  An answer that comes in does not move the execution.  So
this is a `Conduct` that every execution keeps, with whatever native functions and whatever sends
in between (`Handler.kept_confinement`).

`Handler.stays_in_code` puts it together.  As the execution stands inside, or at the end and is not
carried on, there is always a byte for the next opcode.
-/

namespace MessageMachine

/-! ## Branches that are taken -/

/-- Where the instruction branches to at the moment, if it does so. -/
def Instruction.branch? (m : Moment) : Instruction → Option UInt32
  | .goto target => some target
  | .gotoIf wanted target condition =>
    match (Action.fetchOperand condition m).1 with
    | .ok value => if value.isTrue = wanted then some target else none
    | .error _ => none
  | _ => none

/-- What follows the opcode of a call is read as a call. -/
theorem Instruction.eq_call_of_decodeCall {opcode : Opcode} {c next : Cursor} {i : Instruction}
    (decoded : decodeCall opcode c = (.ok i, next)) :
    ∃ native destination positional named, i = .call native destination positional named := by
  obtain ⟨native, _, -, rest⟩ := ok_of_bind decoded
  obtain ⟨place, _, -, rest⟩ := ok_of_bind rest
  obtain ⟨destination, _, -, rest⟩ := ok_of_bind rest
  obtain ⟨count, _, -, rest⟩ := ok_of_bind rest
  obtain ⟨positional, _, -, rest⟩ := ok_of_bind rest
  obtain ⟨count', _, -, rest⟩ := ok_of_bind rest
  obtain ⟨named, _, -, rest⟩ := ok_of_bind rest
  cases rest
  exact ⟨native, destination, positional.val, named.val, rfl⟩

/-- The value of an operand does not depend on the journal or on the place of the execution. -/
theorem Action.fetchOperand_opened (scope : Scope) (o : Operand) (m : Moment) (c : Cursor) :
    (fetchOperand o ((opened scope m).moveTo c)).1 = (fetchOperand o m).1 := by
  rw [placeless_fetchOperand]
  dsimp only
  unfold opened
  split
  · rfl
  · split
    · have same (x : Entry) :
          ((m.world.log x).read m.execution.receiver m.execution.frame o.kind o.data).1 =
            (m.world.read m.execution.receiver m.execution.frame o.kind o.data).1 :=
        have objects : (m.world.log x).objects = m.world.objects := rfl
        have classes : (m.world.log x).classes = m.world.classes := rfl
        (World.read_of_same objects classes rfl _ _ _).1
      rw [fetchOperand, fetch_run, fetch_run]
      exact same _
    · rfl

/-- An instruction that branches jumps, and nothing but the world is different then. -/
theorem Action.perform_of_branch (scope : Scope) {i : Instruction} {t : UInt32} {m : Moment}
    (branch : i.branch? m = some t) :
    ∃ m', m'.execution = m.execution ∧
      perform scope i m = (jump t >>= fun _ => pure .proceed : Action Next) m' := by
  cases i with
  | goto target =>
    cases branch
    exact ⟨m, rfl, rfl⟩
  | gotoIf wanted target condition =>
    have looked := Moment.Looked.fetchOperand condition m
    unfold Instruction.branch? at branch
    dsimp only at branch
    generalize fetched : fetchOperand condition m = outcome at looked branch
    match outcome with
    | (.error f, m') => cases branch
    | (.ok value, m') =>
      dsimp only at branch
      split at branch
      · rename_i taken
        cases branch
        refine ⟨m', looked.execution, ?_⟩
        show (fetchOperand condition >>= fun value => _) m = _
        rw [bind_of_ok fetched, taken, beq_self_eq_true, jumpIf, if_pos rfl]
      · cases branch
  | unary | binary | call | handOver | leave | line => cases branch

/-- An instruction that branches is performed as it is decoded. -/
theorem Action.statement_of_branch (scope : Scope) {i : Instruction} {t : UInt32} {m : Moment}
    {next : Cursor} (decoded : Instruction.decode m.execution.cursor = (.ok i, next))
    (branch : i.branch? m = some t) :
    statement scope m = perform scope i ((opened scope m).moveTo next) := by
  cases found : m.execution.cursor.opcode? with
  | none =>
    obtain ⟨f, c, fails, -⟩ := statement_of_missing scope found
    rw [fails] at decoded
    cases decoded
  | some p =>
    obtain ⟨opcode, command⟩ := p
    obtain ⟨decode, execute⟩ := statement_of_found scope found
    rw [decode] at decoded
    have noCall : command ≠ .call := by
      rintro rfl
      obtain ⟨native, destination, positional, named, rfl⟩ :=
        Instruction.eq_call_of_decodeCall decoded
      cases branch
    rw [execute, rest_eq_perform scope opcode noCall, bind_of_ok (reading_of_run decoded)]
    rfl

/-- Whether an instruction branches does not depend on that either. -/
theorem Instruction.branch?_opened (scope : Scope) (i : Instruction) (m : Moment) (c : Cursor) :
    i.branch? ((Action.opened scope m).moveTo c) = i.branch? m := by
  cases i with
  | gotoIf wanted target condition =>
    unfold branch?
    dsimp only
    rw [Action.fetchOperand_opened]
  | goto | unary | binary | call | handOver | leave | line => rfl

/-- **A branch that is taken** leads to its target exactly if there is a byte of the code.
Otherwise it fails, and the execution stays behind the instruction. -/
theorem Machine.step_of_branch {env : Environment} {m : Machine} {e : Execution}
    (control : m.control = .execute e) (budget : m.session.statements < env.settings.maxStatements)
    {i : Instruction} {next : Cursor} {t : UInt32}
    (decoded : Instruction.decode e.cursor = (.ok i, next))
    (branch : i.branch? (m.session.moment e) = some t) :
    (m.step env).callers = m.callers ∧
      (m.step env).control =
        if e.codeStart ≤ t.toNat ∧ t.toNat < e.cursor.code.size then
          .execute { e with cursor := ⟨e.cursor.code, t.toNat⟩ }
        else .abandon { e with cursor := next } (.branchOutOfRange t.toNat e.cursor.code.size) := by
  let scope := m.scope env (m.session.statements + 1)
  obtain ⟨code, advances⟩ := Instruction.decode_advances decoded
  obtain ⟨bytes, spans, -⟩ := Instruction.exists_spans_of_decode decoded
  have inside : e.cursor.atEnd = false :=
    decide_eq_false (Nat.not_le.mpr (Nat.lt_of_lt_of_le advances (code ▸ spans.inside)))
  have step : m.step env = m.counted.settle env (Action.statement scope (m.session.moment e)).1
      (Action.statement scope (m.session.moment e)).2 := by
    unfold Machine.step
    rw [control]
    exact execute_eq env m inside budget
  obtain ⟨m', same, performs⟩ := Action.perform_of_branch scope
    ((i.branch?_opened scope (m.session.moment e) next).trans branch)
  rw [Action.statement_of_branch scope (m := m.session.moment e) decoded branch, performs] at step
  have opened := (Moment.Looked.opened scope (m.session.moment e)).execution
  have stands : m'.execution = { e with cursor := next } :=
    same.trans (congrArg (fun x : Execution => { x with cursor := next }) opened)
  have jumps := Action.jump_eq t m'
  rw [stands] at jumps
  rw [step, ← code]
  by_cases target : e.codeStart ≤ t.toNat ∧ t.toNat < next.code.size
  · rw [if_pos target] at jumps
    rw [if_pos target, bind_of_ok jumps]
    refine ⟨rfl, ?_⟩
    show Control.execute { m'.execution with cursor := _ } = _
    rw [stands]
  · rw [if_neg target] at jumps
    rw [if_neg target, bind_of_error jumps]
    refine ⟨rfl, ?_⟩
    show Control.abandon m'.execution _ = _
    rw [stands]

/-! ## Standing in the code -/

namespace Handler

/-- The execution of the handler's body from its first instruction on. -/
def entry (h : Handler) (receiver : ObjectId) (frame : Frame) (role : Option Handling) :
    Execution :=
  { receiver, codeStart := h.codeStart, cursor := ⟨h.body, h.codeStart⟩, frame, role }

/-- The execution runs the handler's body, and stands in its code or at the end. -/
structure Confines (h : Handler) (e : Execution) : Prop where
  codeStart : e.codeStart = h.codeStart
  code : e.cursor.code = h.body
  above : h.codeStart ≤ e.cursor.offset
  inside : e.cursor.offset ≤ h.body.size

variable {h : Handler} {e e' : Execution}

theorem confines_entry (start : h.codeStart ≤ h.body.size) (receiver : ObjectId) (frame : Frame)
    (role : Option Handling) : h.Confines (h.entry receiver frame role) :=
  ⟨rfl, rfl, Nat.le_refl _, start⟩

/-- An execution that has not moved is confined as before. -/
theorem Confines.of_cursor (confines : h.Confines e) (continues : e.Continues e')
    (cursor : e'.cursor = e.cursor) : h.Confines e' :=
  ⟨continues.codeStart.trans confines.codeStart, cursor ▸ confines.code, cursor ▸ confines.above,
    cursor ▸ confines.inside⟩

/-- **A statement does not lead out of the code**, whatever becomes of it. -/
theorem Confines.statement {scope : Scope} {m m' : Moment} {x : Except Fault Next}
    (confines : h.Confines m.execution) (run : Action.statement scope m = (x, m')) :
    h.Confines m'.execution := by
  have continues := Action.continues_statement run
  have codeStart := continues.codeStart.trans confines.codeStart
  have code := continues.code.trans confines.code
  obtain ⟨stop, extent, stands⟩ := Action.extent_statement scope m
  rw [run, codeStart, code] at stands
  have inside := extent.inside (confines.code.symm ▸ confines.inside)
  rw [confines.code] at inside
  rcases stands with there | ⟨above, below⟩
  · exact ⟨codeStart, code, there ▸ Nat.le_trans confines.above extent.after, there ▸ inside⟩
  · exact ⟨codeStart, code, above, Nat.le_of_lt below⟩

/-- The conduct of an execution that is confined, at work, failing, or waiting. -/
def confinement (h : Handler) : Conduct where
  works := h.Confines
  fails e _ := h.Confines e
  waits c := h.Confines c.execution

/-- **Every execution is confined to its code until it ends**, whatever the native functions do. -/
theorem kept_confinement (h : Handler) (env : Environment) : h.confinement.Kept env where
  runOff confines _ := confines
  overrun confines := confines
  statement {scope m m' x} _ confines _ run := by
    have confines' := confines.statement run
    match x with
    | .error f => exact confines'
    | .ok .proceed => exact confines'
    | .ok (.await send destination) => exact confines'
    | .ok (.leave ending) => trivial
  resume {c value m m' x} confines execution run := by
    have continues := ((Action.Tame.assignIf _ _).of_run run).1.execution
    have cursor := (Action.placeless_assignIf c.destination value).cursor m
    rw [run] at cursor
    rw [execution] at continues cursor
    have confines' : h.Confines m'.execution := confines.of_cursor continues cursor
    match x with
    | .ok () => exact confines'
    | .error f => exact confines'
  abort confines _ := confines

/-- Each time the execution is about to execute a statement it is confined. -/
theorem confines_of_leads (start : h.codeStart ≤ h.body.size) {env : Environment} {m s : Machine}
    {receiver : ObjectId} {frame : Frame} {role : Option Handling}
    (begins : m.control = .execute (h.entry receiver frame role))
    (leads : Machine.Leads env (Machine.Hosts m.callers) m s) (callers : s.callers = m.callers)
    (head : s.control = .execute e) : h.Confines e := by
  have first : h.confinement.Holds m.callers m :=
    .works begins rfl (confines_entry start receiver frame role)
  have holds : h.confinement.Holds m.callers s := leads.keeps_within (fun s _ next holds => by
    rcases holds.step (h.kept_confinement env) with next' | ⟨callers, r, ends⟩
    · exact next'
    · exact absurd next (ends.not_hosts callers)) first
  cases holds with
  | works control _ confines =>
    rw [head] at control
    cases control
    exact confines
  | fails control =>
    rw [head] at control
    cases control
  | @waits c upper list =>
    have length := congrArg List.length list
    rw [callers, List.length_append, List.length_cons] at length
    omega

/-- **The execution of a handler stays in its code.**  Let a body be accepted, and let the machine
be about to execute it from its first instruction on, for whatever receiver, in whatever frame, as a
handler or on its own, with whatever native functions.  Take any later state at which this execution
is about to execute a statement, however many statements and sends lie in between.

It still has the same code, and stands between its beginning and its end.  Unless it stands at the
end, there is a byte of the code for the opcode, so reading that never fails.  A byte or a word that
is read stands in the body, right where it is read.  What a statement reads in all extends up to an
offset in the body: with other code that is the same up to there, it does the same.  And a branch
that is taken leads to its target exactly if that is the offset of a byte of the code; otherwise the
execution fails, and stays behind the instruction. -/
theorem stays_in_code {id : MessageId} {name : String} {body : Array UInt8}
    (accepted : ofBody id name body = .ok h) {env : Environment} {m s : Machine}
    {receiver : ObjectId} {frame : Frame} {role : Option Handling}
    (begins : m.control = .execute (h.entry receiver frame role))
    (leads : Machine.Leads env (Machine.Hosts m.callers) m s) (callers : s.callers = m.callers)
    (head : s.control = .execute e) :
    (e.codeStart = h.codeStart ∧ e.cursor.code = body ∧
      h.codeStart ≤ e.cursor.offset ∧ e.cursor.offset ≤ body.size) ∧
    (e.cursor.atEnd = false → e.cursor.offset < body.size ∧
      ∃ b, body[e.cursor.offset]? = some b ∧
        Cursor.byte e.cursor = (.ok b, ⟨body, e.cursor.offset + 1⟩)) ∧
    (∀ c next, c.code = body → (∀ b, Cursor.byte c = (.ok b, next) → c.Spans [b] next) ∧
      ∀ w, Cursor.word c = (.ok w, next) → c.Spans (bytesOfWord w) next) ∧
    (∀ scope, ∃ stop, e.cursor.offset ≤ stop ∧ stop ≤ body.size ∧
      ∀ code', SameBetween body code' e.cursor.offset stop →
        let outcome := Action.statement scope (s.session.moment e)
        Action.statement scope ((s.session.moment e).onCode code') =
          (outcome.1, outcome.2.onCode code')) ∧
    ∀ i next t, Instruction.decode e.cursor = (.ok i, next) →
      i.branch? (s.session.moment e) = some t →
      s.session.statements < env.settings.maxStatements →
      (s.step env).control =
        if h.codeStart ≤ t.toNat ∧ t.toNat < body.size then
          .execute { e with cursor := ⟨body, t.toNat⟩ }
        else .abandon { e with cursor := next } (.branchOutOfRange t.toNat body.size) := by
  obtain ⟨rfl, start⟩ := codeStart_le id name accepted
  have confines := confines_of_leads start begins leads callers head
  have code := confines.code
  refine ⟨⟨confines.codeStart, code, confines.above, confines.inside⟩, fun more => ?_,
    fun c next _ => ⟨fun b => Cursor.spans_of_byte, fun w => Cursor.spans_of_word⟩, fun scope => ?_,
    fun i next t decoded branch budget => ?_⟩
  · have lt : e.cursor.offset < h.body.size := by
      rw [← code]
      exact Nat.not_le.mp (of_decide_eq_false more)
    have found := Array.getElem?_eq_getElem lt
    refine ⟨lt, _, found, ?_⟩
    rw [Cursor.byte_run, code, found]
  · obtain ⟨stop, extent, -⟩ := Action.extent_statement scope (s.session.moment e)
    have inside := extent.inside (code.symm ▸ confines.inside)
    refine ⟨stop, extent.after, code ▸ inside, fun code' agree => ?_⟩
    exact extent.same code' (code.symm ▸ agree)
  · rw [(Machine.step_of_branch head budget decoded branch).2, confines.codeStart, code]

/-- A handler that goes on to its second instruction, and from there to its own header. -/
def straying : Handler where
  locals := 0
  parameters := []
  frameSize_le := Nat.zero_le _
  id := ⟨1⟩
  name := "Stray"
  body := #[0, 0, 64, 7, 0, 0, 0, 64, 1, 0, 0, 0]

theorem stays_in_code_straying :
    let env : Environment := ⟨{}, .standard⟩
    let x := straying.entry ⟨0⟩ ⟨#[], by decide⟩ none
    let m := Machine.ofExecution { world := { posts := { capacity := 0 } } } x
    let e := { x with cursor := ⟨straying.body, 7⟩ }
    ofBody ⟨1⟩ "Stray" straying.body = .ok straying ∧ m.control = .execute x ∧
      Machine.Leads env (Machine.Hosts m.callers) m (m.step env) ∧
      (m.step env).callers = m.callers ∧ (m.step env).control = .execute e ∧
      ((m.step env).step env).control =
        .abandon { e with cursor := ⟨straying.body, 12⟩ } (.branchOutOfRange 1 12) := by
  intro env x m e
  have accepted : ofBody ⟨1⟩ "Stray" straying.body = .ok straying := rfl
  have first : Instruction.decode ⟨straying.body, 2⟩ = (.ok (.goto 7), ⟨straying.body, 7⟩) := rfl
  obtain ⟨callers, onwards⟩ : (m.step env).callers = m.callers ∧ (m.step env).control = _ :=
    Machine.step_of_branch rfl (by decide) first rfl
  have head : (m.step env).control = .execute e := onwards.trans (if_pos (by decide))
  have leads : Machine.Leads env (Machine.Hosts m.callers) m (m.step env) :=
    Machine.Leads.single ⟨List.suffix_rfl, fun _ => rfl⟩
      ⟨callers ▸ List.suffix_rfl, fun _ => by rw [head]; rfl⟩
  obtain ⟨-, -, -, -, branches⟩ := stays_in_code accepted rfl leads callers head
  have second : Instruction.decode ⟨straying.body, 7⟩ = (.ok (.goto 1), ⟨straying.body, 12⟩) := rfl
  exact ⟨accepted, rfl, leads, callers, head, branches _ _ _ second rfl (by decide)⟩

end Handler

end MessageMachine
