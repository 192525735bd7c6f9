import MessageMachine.Proofs.Machine.Dispatch
import MessageMachine.Proofs.Statement.Nil

/-!
# Runs and plain values

Values pass through a run in many ways: from a sender to a handler, from a handler back to its
sender, into objects and out of them, into the queue of posts.  A state is *plain* when all of them
are, wherever they are on their way (`Machine.Plain`), and every step of a machine keeps that
(`Transition.plain`).  The handlers bring in values of their own, as constants in their code and as
defaults of their parameters; a handler is plain when these are (`Handler.Plain`).  For clean code
this can be read off the listing (`Handler.IsClean.plain`).
-/

namespace MessageMachine

/-- The defaults of the parameters are plain, and so are the constants that the code may come to. -/
structure Handler.Plain (h : Handler) : Prop where
  defaults : ∀ p ∈ h.parameters, p.default.Plain
  code : Cursor.PlainAhead ⟨h.body, h.codeStart⟩

/-- Every handler that may be found is plain. -/
def Directory.PlainCode (d : Directory) : Prop :=
  ∀ id message c h, d.findHandler id message = some (c, h) → h.Plain

theorem Directory.PlainCode.of_sameOutline {d d' : Directory} (h : d.PlainCode)
    (outline : d.SameOutline d') : d'.PlainCode := by
  intro id message c handler found
  have back : d'.SameOutline d := fun id => (outline id).symm
  obtain ⟨c', found', -⟩ := back.findHandler_of_some found
  exact h id message c' handler found'

theorem Directory.PlainCode.of_records {d : Directory}
    (h : ∀ r ∈ d.records, ∀ handler ∈ r.cls.handlers, handler.Plain) : d.PlainCode := by
  intro id message c handler found
  unfold findHandler at found
  generalize Limits.classChain = steps at found
  induction steps generalizing id with
  | zero => cases found
  | succ steps ih =>
    unfold findUpwards at found
    split at found
    · cases found
    · rename_i held
      obtain ⟨r, listed, rfl⟩ := Option.map_eq_some_iff.mp held
      split at found
      · rename_i defines
        cases found
        exact h r (List.mem_of_find?_eq_some listed) _ (List.mem_of_find?_eq_some defines)
      · split at found
        · exact ih _ found
        · cases found

/-! ## Handlers that can be seen to be plain -/

/-- Nothing is read where the code has ended. -/
theorem Cursor.decode_of_atEnd {c : Cursor} (ended : c.atEnd = true) :
    (∃ f, Instruction.decode c = (.error f, c)) ∧ c.operands = [] := by
  have missing : c.code[c.offset]? = none := Array.getElem?_eq_none (of_decide_eq_true ended)
  have byte := c.byte_run
  rw [missing] at byte
  have decoded := (Action.decode_run c).trans (bind_of_error byte)
  refine ⟨⟨_, decoded⟩, ?_⟩
  rw [operands, decoded]
  dsimp only
  rw [Instruction.parametersRead, opcode?, missing]

namespace Handler

/-- What is read from `c` on is listed, and the reading goes to the end. -/
structure Lists (h : Handler) (c : Cursor) : Prop where
  code : c.code = h.body
  fault : (Disassembly.ofCursor c).fault = none
  suffix : (Disassembly.ofCursor c).instructions <:+ h.disassembly.instructions

variable {h : Handler} {c : Cursor}

/-- The instruction that is read next is listed, if there is one. -/
theorem Lists.cases_decode (lists : h.Lists c) :
    c.operands = [] ∧ (∃ f, Instruction.decode c = (.error f, c)) ∨
      ∃ i next, Instruction.decode c = (.ok i, next) ∧ (c.offset, i) ∈ h.disassembly.instructions ∧
        h.Lists next := by
  cases ended : c.atEnd with
  | true =>
    obtain ⟨fails, none⟩ := c.decode_of_atEnd ended
    exact .inl ⟨none, fails⟩
  | false =>
    right
    have more : ¬ c.atEnd := by rw [ended]; exact Bool.false_ne_true
    have readable := lists.fault
    have suffix := lists.suffix
    generalize decoded : Instruction.decode c = outcome
    match outcome with
    | (.error f, next) =>
      rw [Disassembly.ofCursor_of_error more decoded] at readable
      cases readable
    | (.ok i, next) =>
      rw [Disassembly.ofCursor_of_decode more decoded] at suffix readable
      exact ⟨i, next, rfl, suffix.subset List.mem_cons_self,
        (Instruction.decode_advances decoded).1.trans lists.code, readable,
        (List.suffix_cons _ _).trans suffix⟩

/-- Clean code leads only to where its listing goes on. -/
theorem Lists.flow (lists : h.Lists c) (clean : h.IsClean) {c' : Cursor} (flows : c.Flows c') :
    h.Lists c' := by
  obtain ⟨i, next, decoded, there⟩ := flows
  rcases lists.cases_decode with ⟨-, f, fails⟩ | ⟨i', next', decoded', mem, behind⟩
  · rw [fails] at decoded
    cases decoded
  · rw [decoded] at decoded'
    cases decoded'
    rcases there with rfl | ⟨t, target, rfl⟩
    · exact behind
    · obtain ⟨-, -, reached⟩ := reaches_of_mem clean.readable (clean.targets _ mem t target)
      rw [behind.code]
      exact ⟨rfl, reached.fault, reached.suffix⟩

/-- **A handler can be seen to be plain**: if it is clean, its defaults and the constants in its
listing are all that has to be looked at. -/
theorem IsClean.plain (clean : h.IsClean) (defaults : ∀ p ∈ h.parameters, p.default.Plain)
    (constants : ∀ p ∈ h.disassembly.instructions, ∀ o ∈ p.2.operands, o.Plain) : h.Plain := by
  refine ⟨defaults, fun c leads => ?_⟩
  have lists : h.Lists c := by
    induction leads with
    | refl => exact ⟨rfl, clean.readable, List.suffix_rfl⟩
    | tail _ flows ih => exact ih.flow clean flows
  rcases lists.cases_decode with ⟨none, -⟩ | ⟨i, next, decoded, mem, -⟩
  · rw [none]
    exact fun o mem => by cases mem
  · rw [Cursor.operands, decoded]
    exact constants _ mem

end Handler

/-! ## Plain states -/

/-- The locals of an execution are plain, and the arguments of the send that it handles. -/
structure Execution.Plain (e : Execution) : Prop where
  frame : e.frame.Plain
  send : ∀ h, e.role = some h → h.send.Plain

/-- An execution that goes on handles the same send. -/
theorem Execution.Plain.continues {e e' : Execution} (h : e.Plain) (continues : e.Continues e')
    (frame : e'.frame.Plain) : e'.Plain := by
  refine ⟨frame, fun h' role' => ?_⟩
  have same := continues.role
  rw [role'] at same
  obtain ⟨x, role, unlined⟩ := Option.map_eq_some_iff.mp same.symm
  have sends : x.unlined.send = h'.unlined.send := congrArg Handling.send unlined
  rw [← show x.send = h'.send from sends]
  exact h.send x role

/-- The values that are on their way are plain. -/
def Control.Plain : Control → Prop
  | .dispatch send | .seek send _ _ => send.Plain
  | .execute e => e.Plain ∧ e.cursor.PlainAhead
  | .abandon e _ => e.Plain
  | .answer r => ∀ v, r = .ok v → v.Plain
  | .halted r e => (∀ ending, r = .ok ending → ending.Plain) ∧ ∀ x, e = some x → x.frame.Plain

/-- All values in a state of the machine are plain. -/
structure Machine.Plain (m : Machine) : Prop where
  world : m.session.world.Plain
  code : m.session.world.classes.PlainCode
  callers : ∀ c ∈ m.callers.list, c.execution.Plain ∧ c.execution.cursor.PlainAhead
  control : m.control.Plain

theorem Session.Idle.plain {s s' : Session} (h : s.Idle s') (plain : s.world.Plain) :
    s'.world.Plain :=
  plain.of_eq h.objects h.classes h.posts

/-- What follows a handler that has ended with a plain value. -/
theorem Handling.plain_followUp {h : Handling} (send : h.send.Plain) {result : Except Fault Ending}
    (plain : ∀ ending, result = .ok ending → ending.Plain) : (h.followUp result).Plain := by
  match result with
  | .error f => exact fun v same => by cases same
  | .ok (.value v) => exact fun _ same => by cases same; exact plain _ rfl
  | .ok .handOver =>
    unfold followUp
    cases h.parent with
    | some parent => exact send
    | none => exact fun _ same => by cases same; exact .nil

/-- What follows an execution that has ended with a plain value. -/
theorem Machine.plain_leave (env : Environment) (m : Machine) {e : Execution}
    {result : Except Fault Ending} (execution : e.Plain)
    (plain : ∀ ending, result = .ok ending → ending.Plain) :
    (m.leave env e result).control.Plain := by
  cases role : e.role with
  | none =>
    rw [leave_alone env m role]
    exact ⟨plain, fun x same => by cases same; exact execution.frame⟩
  | some h =>
    rw [leave_handler env m role]
    exact Handling.plain_followUp (execution.send h role) plain

/-- What a sender sees of a plain answer is plain. -/
theorem plain_of_contained {r : Except Fault Value} (h : ∀ v, r = .ok v → v.Plain) {value : Value}
    (seen : contained r = .ok value) : value.Plain := by
  match r with
  | .ok v =>
    cases seen
    exact h _ rfl
  | .error f =>
    unfold contained at seen
    dsimp only at seen
    split at seen
    · cases seen
    · cases seen
      exact .nil

/-- A handler begins plain. -/
theorem Execution.plain_ofHandler {send : Send} (hs : send.Plain) (cls : Class) {handler : Handler}
    (hh : handler.Plain) (track : Bool) (started : UInt64) :
    (ofHandler send cls handler (handler.bind track send.arguments) started).Plain :=
  ⟨.bind hh.defaults hs track, fun h role => by cases role; exact hs⟩

/-- **Every step keeps all values plain.** -/
theorem Transition.plain {env : Environment} (hn : env.natives.KeepsPlain)
    (hc : env.natives.KeepsClasses) {m m' : Machine} (t : Transition env m m') (h : m.Plain) :
    m'.Plain := by
  have code : m'.session.world.classes.PlainCode := h.code.of_sameOutline (t.sameOutline hc)
  have known := h.control
  -- a statement, and an answer that is written
  have statement {e : Execution} {x : Except Fault Next} {moment : Moment}
      (executes : m.control = .execute e)
      (outcome : Action.statement (m.scope env (m.session.statements + 1)) (m.session.moment e) =
        (x, moment)) :
      moment.world.Plain ∧ moment.execution.Plain ∧ ∀ next, x = .ok next →
        next.Plain ∧ moment.execution.cursor.PlainAhead := by
    rw [executes] at known
    obtain ⟨execution, ahead⟩ := known
    have ahead : (m.session.moment e).execution.cursor.PlainAhead := ahead
    obtain ⟨world, frame, results⟩ :=
      Action.plain_statement hn h.world execution.frame ahead.operands outcome
    refine ⟨world, execution.continues (Action.continues_statement outcome) frame,
      fun next same => ?_⟩
    obtain ⟨sends, flows⟩ := results next same
    exact ⟨sends, ahead.flow flows⟩
  have answer {r : Except Fault Value} {c : Caller} {callers : Callers} {value : Value}
      {x : Except Fault Unit} {moment : Moment} (answers : m.control = .answer r)
      (pop : m.callers.pop? = some (c, callers)) (seen : contained r = .ok value)
      (outcome : Action.assignIf c.destination value ((m.session.forgive c r).moment c.execution) =
        (x, moment)) :
      moment.world.Plain ∧ moment.execution.Plain ∧ moment.execution.cursor.PlainAhead := by
    rw [answers] at known
    obtain ⟨execution, ahead⟩ := h.callers c (by rw [Callers.list_of_pop? pop]; exact .head _)
    have world := (Session.Idle.forgive m.session c r).plain h.world
    obtain ⟨plain, -⟩ := (Action.Purely.assignIf c.destination (plain_of_contained known seen)
      c.execution.cursor).of_run ⟨world, execution.frame, rfl⟩ outcome
    refine ⟨plain.world, execution.continues ?_ plain.frame, plain.cursor ▸ ahead⟩
    exact ((Action.Tame.assignIf _ _).of_run outcome).1.execution
  have others {c : Caller} {callers : Callers} (pop : m.callers.pop? = some (c, callers)) :
      ∀ c ∈ callers.list, c.execution.Plain ∧ c.execution.cursor.PlainAhead := fun c' mem =>
    h.callers c' (by rw [Callers.list_of_pop? pop]; exact .tail _ mem)
  cases t with
  | reject | miss =>
    exact ⟨(Machine.idle_refuse m _).plain h.world, code, h.callers, fun v same => by cases same⟩
  | accept control =>
    rw [control] at known
    exact ⟨h.world, code, h.callers, known⟩
  | @begin send start _ cls handler control found =>
    rw [control] at known
    have plain := h.code start send.message cls handler found
    exact ⟨h.world.of_eq rfl rfl rfl, code, h.callers,
      Execution.plain_ofHandler known cls plain _ _, plain.code⟩
  | exhaust => exact ⟨h.world, code, h.callers, fun v same => by cases same; exact .nil⟩
  | runOff control | overrun control =>
    rw [control] at known
    exact ⟨h.world, code, h.callers, known.1⟩
  | fail control _ _ outcome =>
    obtain ⟨world, execution, -⟩ := statement control outcome
    exact ⟨world, code, h.callers, execution⟩
  | proceed control _ _ outcome =>
    obtain ⟨world, execution, results⟩ := statement control outcome
    exact ⟨world, code, h.callers, execution, (results _ rfl).2⟩
  | await control _ _ outcome =>
    obtain ⟨world, execution, results⟩ := statement control outcome
    obtain ⟨send, ahead⟩ := results _ rfl
    refine ⟨world, code, ?_, send⟩
    rw [Callers.list_push]
    exact List.forall_mem_cons.mpr ⟨⟨execution, ahead⟩, h.callers⟩
  | @finish e ending moment control _ _ outcome =>
    obtain ⟨world, execution, results⟩ := statement control outcome
    have idle := Machine.idle_leave env { m.counted with session := m.counted.session.after moment }
      moment.execution (.ok ending)
    refine ⟨idle.plain world, code, ?_, ?_⟩
    · rw [Machine.callers_leave]
      exact h.callers
    · exact Machine.plain_leave env _ execution fun ending same => by
        cases same
        exact (results _ rfl).1
  | abandon control =>
    rw [control] at known
    refine ⟨(Machine.idle_abandon env m _ _).plain h.world, code, ?_, ?_⟩
    · rw [Machine.abandon, Machine.callers_leave]
      exact h.callers
    · exact Machine.plain_leave env _ known fun ending same => by cases same
  | @halt r control top =>
    rw [control] at known
    refine ⟨h.world, code, h.callers, fun ending same => ?_, fun x same => by cases same⟩
    cases r with
    | ok v =>
      cases same
      exact known v rfl
    | error f => cases same
  | resume control pop seen outcome =>
    obtain ⟨world, execution, ahead⟩ := answer control pop seen outcome
    exact ⟨world, code, others pop, execution, ahead⟩
  | misfit control pop seen outcome =>
    obtain ⟨world, execution, -⟩ := answer control pop seen outcome
    exact ⟨world, code, others pop, execution⟩
  | @abort f c callers control pop aborts =>
    obtain ⟨execution, -⟩ := h.callers c (by rw [Callers.list_of_pop? pop]; exact .head _)
    exact ⟨h.world, code, others pop, execution⟩

end MessageMachine
