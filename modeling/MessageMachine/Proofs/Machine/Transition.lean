import MessageMachine.Proofs.Statement.Effect
import MessageMachine.Machine.Run

/-!
# The transitions of the machine

`Machine.step` branches many times before it is done.  Here all its branches are listed once, as the
constructors of `Transition`, each with what has to hold for it to be taken and with the state that
it leads to; `transition_step` says that every step of a running machine is one of them.  Whatever
is said about steps elsewhere is said by cases on the transition, and never by opening the step.

Three of the functions that a step is made of do no more than bookkeeping: recording a
fault, keeping the time of a handler, and forgiving a failed send.  `Session.Idle` is what
they have in common.

## Containment

The sender of a message never sees why it failed.  `contained` is what it sees instead: nil for
every failure but one that aborts, which is passed on as it is.
-/

namespace MessageMachine

/-! ## Bookkeeping -/

/-- Nothing was executed: at most the journal, the clock, the profiles and the fault on its way
outwards are different. -/
structure Session.Idle (s s' : Session) : Prop where
  objects : s'.world.objects = s.world.objects
  classes : s'.world.classes = s.world.classes
  posts : s'.world.posts = s.world.posts
  statements : s'.statements = s.statements
  nativeCalls : s'.nativeCalls = s.nativeCalls
  messages : s'.statistics.messages = s.statistics.messages

namespace Session.Idle

theorem refl (s : Session) : s.Idle s := ⟨rfl, rfl, rfl, rfl, rfl, rfl⟩

theorem trans {s s' s'' : Session} (h : s.Idle s') (h' : s'.Idle s'') : s.Idle s'' :=
  ⟨h'.objects.trans h.objects, h'.classes.trans h.classes, h'.posts.trans h.posts,
    h'.statements.trans h.statements, h'.nativeCalls.trans h.nativeCalls,
    h'.messages.trans h.messages⟩

/-- Recording a fault. -/
theorem report (s : Session) (stack : List Activation) (f : Fault) : s.Idle (s.report stack f) := by
  unfold Session.report
  split
  · exact refl s
  · dsimp only
    split <;> exact ⟨rfl, rfl, rfl, rfl, rfl, rfl⟩

/-- Keeping the time of a handler. -/
theorem keepTime (env : Environment) (s : Session) (h : Handling) :
    s.Idle (Machine.keepTime env s h) := by
  unfold Machine.keepTime
  split
  · refine ⟨rfl, rfl, rfl, rfl, rfl, ?_⟩
    dsimp only [Statistics.countTime]
    split <;> rfl
  · exact refl s

end Session.Idle

/-! ## Containment -/

/-- What a sender sees of the answer to its send. -/
def contained : Except Fault Value → Except Fault Value
  | .ok v => .ok v
  | .error f => if f.aborts then .error f else .ok .nil

/-- Records that a sender goes on with nil, if that is what it sees, and ends the way outwards
of the fault. -/
def Session.forgive (s : Session) (c : Caller) : Except Fault Value → Session
  | .ok _ => s
  | .error f =>
    if f.aborts then s
    else
      { s with
        world := s.world.log (.sendFailed c.execution.activation? c.send f)
        unwinding := none }

theorem Session.Idle.forgive (s : Session) (c : Caller) (r : Except Fault Value) :
    s.Idle (s.forgive c r) := by
  unfold Session.forgive
  split
  · exact refl s
  split
  · exact refl s
  · exact ⟨rfl, rfl, rfl, rfl, rfl, rfl⟩

/-- What follows when a handler has ended. -/
def Handling.followUp (h : Handling) : Except Fault Ending → Control
  | .error f => .answer (.error f)
  | .ok (.value v) => .answer (.ok v)
  | .ok .handOver =>
    match h.parent with
    | some parent => .seek h.send parent true
    | none => .answer (.ok .nil)

/-- A handler that has failed answers with its fault.  One that has not answers with a value,
or hands over. -/
theorem Handling.followUp_cases (h : Handling) (result : Except Fault Ending) :
    (∃ f, result = .error f ∧ h.followUp result = .answer (.error f)) ∨
      (∃ ending v, result = .ok ending ∧ h.followUp result = .answer (.ok v)) ∨
        ∃ parent, result = .ok .handOver ∧ h.followUp result = .seek h.send parent true := by
  match result with
  | .error f => exact .inl ⟨f, rfl, rfl⟩
  | .ok (.value v) => exact .inr (.inl ⟨_, v, rfl, rfl⟩)
  | .ok .handOver =>
    unfold followUp
    cases h.parent with
    | some parent => exact .inr (.inr ⟨parent, rfl, rfl⟩)
    | none => exact .inr (.inl ⟨_, .nil, rfl, rfl⟩)

namespace Machine

/-- The machine with one more statement counted. -/
def counted (m : Machine) : Machine :=
  { m with session := { m.session with statements := m.session.statements + 1 } }

theorem leave_handler (env : Environment) (m : Machine) {e : Execution} {h : Handling}
    (role : e.role = some h) (result : Except Fault Ending) :
    m.leave env e result =
      { m with session := keepTime env m.session h, control := h.followUp result } := by
  unfold leave
  rw [role]
  rfl

theorem leave_alone (env : Environment) (m : Machine) {e : Execution} (role : e.role = none)
    (result : Except Fault Ending) :
    m.leave env e result = { m with control := .halted result (some e) } := by
  unfold leave
  rw [role]

@[simp] theorem callers_leave (env : Environment) (m : Machine) (e : Execution)
    (result : Except Fault Ending) : (m.leave env e result).callers = m.callers := by
  unfold leave
  split <;> rfl

/-- What follows when an execution has ended: the machine halts, or a send is answered or handed
over. -/
theorem control_leave (env : Environment) (m : Machine) (e : Execution)
    (result : Except Fault Ending) :
    (∃ r x, (m.leave env e result).control = .halted r x) ∨
      (∃ r, (m.leave env e result).control = .answer r) ∨
        ∃ send start, (m.leave env e result).control = .seek send start true := by
  cases role : e.role with
  | none =>
    rw [leave_alone env m role]
    exact .inl ⟨_, _, rfl⟩
  | some h =>
    rw [leave_handler env m role]
    rcases h.followUp_cases result with ⟨f, -, follows⟩ | ⟨_, v, -, follows⟩ | ⟨parent, -, follows⟩
    · exact .inr (.inl ⟨_, follows⟩)
    · exact .inr (.inl ⟨_, follows⟩)
    · exact .inr (.inr ⟨_, _, follows⟩)

/-- No send is checked when an execution has ended, and no handler looked for the first time. -/
theorem control_leave_ne (env : Environment) (m : Machine) (e : Execution)
    (result : Except Fault Ending) (send : Send) :
    (m.leave env e result).control ≠ .dispatch send ∧
      ∀ start, (m.leave env e result).control ≠ .seek send start false := by
  rcases control_leave env m e result with ⟨r, x, h⟩ | ⟨r, h⟩ | ⟨s, start, h⟩
  all_goals
    rw [h]
    exact ⟨fun e => (by cases e), fun _ e => (by cases e)⟩

theorem idle_refuse (m : Machine) (f : Fault) : m.session.Idle (m.refuse f).session :=
  .report _ _ _

theorem idle_leave (env : Environment) (m : Machine) (e : Execution)
    (result : Except Fault Ending) : m.session.Idle (m.leave env e result).session := by
  cases role : e.role with
  | none =>
    rw [leave_alone env m role]
    exact .refl _
  | some h =>
    rw [leave_handler env m role]
    exact .keepTime env m.session h

theorem idle_abandon (env : Environment) (m : Machine) (e : Execution) (f : Fault) :
    m.session.Idle (m.abandon env e f).session :=
  (Session.Idle.report _ _ _).trans (idle_leave env { m with session := _ } e _)

/-- The innermost send is answered with what its sender sees. -/
theorem answer_eq (m : Machine) (r : Except Fault Value) :
    m.answer r =
      match m.callers.pop? with
      | none => { m with control := .halted (r.map .value) none }
      | some (c, callers) =>
        match contained r with
        | .ok value =>
          { m with callers, session := m.session.forgive c r : Machine }.resume c value
        | .error f => { m with callers, control := .abandon c.execution f } := by
  unfold answer
  cases m.callers.pop? with
  | none => rfl
  | some p =>
    cases r with
    | ok v => rfl
    | error f =>
      cases hf : f.aborts with
      | true => simp only [contained, hf, if_true]
      | false => simp [contained, Session.forgive, hf]

end Machine

/-! ## The transitions -/

/-- The reasons for which a send is not let through, and the faults that it then fails with. -/
inductive Machine.Rejects (env : Environment) (m : Machine) (send : Send) : Fault → Prop where
  | named (many : Limits.named < send.arguments.length) :
      m.Rejects env send (.tooManyNamed send.arguments.length)
  | depth (named : send.arguments.length ≤ Limits.named)
      (deep : env.settings.maxDepth ≤ m.callers.depth) :
      m.Rejects env send (.recursionLimit m.callers.depth)
  | receiver (named : send.arguments.length ≤ Limits.named)
      (depth : m.callers.depth < env.settings.maxDepth)
      (missing : m.session.world.objects.get? send.receiver = none) :
      m.Rejects env send (.unknownObject send.receiver)

theorem Machine.Rejects.ordinary {env : Environment} {m : Machine} {send : Send} {f : Fault}
    (h : m.Rejects env send f) : f.IsOrdinary := by
  cases h <;> rfl

/-- The ways in which a step leads from `m` to another state. -/
inductive Transition (env : Environment) (m : Machine) : Machine → Prop where
  /-- A send is not let through. -/
  | reject {send : Send} {f : Fault} (control : m.control = .dispatch send)
      (rejects : m.Rejects env send f) :
      Transition env m (m.refuse f)
  /-- A send is let through. -/
  | accept {send : Send} {o : Object} (control : m.control = .dispatch send)
      (named : send.arguments.length ≤ Limits.named)
      (depth : m.callers.depth < env.settings.maxDepth)
      (receiver : m.session.world.objects.get? send.receiver = some o) :
      Transition env m { m with control := .seek send o.classId false }
  /-- A handler begins to work. -/
  | begin {send : Send} {start : ClassId} {again : Bool} {cls : Class} {handler : Handler}
      (control : m.control = .seek send start again)
      (found : m.session.world.classes.findHandler start send.message = some (cls, handler)) :
      Transition env m (m.begin send cls handler)
  /-- No class has a handler for a send. -/
  | miss {send : Send} {start : ClassId} (control : m.control = .seek send start false)
      (missing : m.session.world.classes.findHandler start send.message = none) :
      Transition env m (m.refuse (.unknownMessage start send.message))
  /-- No superclass is left that a send could be handed over to. -/
  | exhaust {send : Send} {start : ClassId} (control : m.control = .seek send start true)
      (missing : m.session.world.classes.findHandler start send.message = none) :
      Transition env m { m with control := .answer (.ok .nil) }
  /-- The code of an execution has come to its end. -/
  | runOff {e : Execution} (control : m.control = .execute e) (code : e.cursor.atEnd = true) :
      Transition env m { m with control := .abandon e .missingReturn }
  /-- A statement is counted that is one too many. -/
  | overrun {e : Execution} (control : m.control = .execute e) (code : e.cursor.atEnd = false)
      (budget : env.settings.maxStatements ≤ m.session.statements) :
      Transition env m
        { m.counted with control := .abandon e (.statementBudget env.settings.maxStatements) }
  /-- A statement is executed, and fails. -/
  | fail {e : Execution} {f : Fault} {moment : Moment} (control : m.control = .execute e)
      (code : e.cursor.atEnd = false) (budget : m.session.statements < env.settings.maxStatements)
      (outcome : Action.statement (m.scope env (m.session.statements + 1)) (m.session.moment e) =
        (.error f, moment)) :
      Transition env m
        { m.counted with
          session := m.counted.session.after moment
          control := .abandon moment.execution f }
  /-- A statement is executed, and the next one follows. -/
  | proceed {e : Execution} {moment : Moment} (control : m.control = .execute e)
      (code : e.cursor.atEnd = false) (budget : m.session.statements < env.settings.maxStatements)
      (outcome : Action.statement (m.scope env (m.session.statements + 1)) (m.session.moment e) =
        (.ok .proceed, moment)) :
      Transition env m
        { m.counted with
          session := m.counted.session.after moment
          control := .execute moment.execution }
  /-- A statement is executed, and waits for the answer to a send. -/
  | await {e : Execution} {send : Send} {destination : Option Destination} {moment : Moment}
      (control : m.control = .execute e) (code : e.cursor.atEnd = false)
      (budget : m.session.statements < env.settings.maxStatements)
      (outcome : Action.statement (m.scope env (m.session.statements + 1)) (m.session.moment e) =
        (.ok (.await send destination), moment)) :
      Transition env m
        { session := m.counted.session.after moment
          callers := m.callers.push ⟨moment.execution, send, destination⟩
          control := .dispatch send }
  /-- A statement is executed, and ends the execution. -/
  | finish {e : Execution} {ending : Ending} {moment : Moment} (control : m.control = .execute e)
      (code : e.cursor.atEnd = false) (budget : m.session.statements < env.settings.maxStatements)
      (outcome : Action.statement (m.scope env (m.session.statements + 1)) (m.session.moment e) =
        (.ok (.leave ending), moment)) :
      Transition env m
        ({ m.counted with session := m.counted.session.after moment : Machine }.leave env
          moment.execution (.ok ending))
  /-- The fault of a failing execution is recorded, and the execution ends. -/
  | abandon {e : Execution} {f : Fault} (control : m.control = .abandon e f) :
      Transition env m (m.abandon env e f)
  /-- The send from the top is answered. -/
  | halt {r : Except Fault Value} (control : m.control = .answer r)
      (top : m.callers.pop? = none) :
      Transition env m { m with control := .halted (r.map .value) none }
  /-- A caller takes what it sees of an answer, and executes on. -/
  | resume {r : Except Fault Value} {c : Caller} {callers : Callers} {value : Value}
      {moment : Moment} (control : m.control = .answer r)
      (pop : m.callers.pop? = some (c, callers)) (seen : contained r = .ok value)
      (outcome : Action.assignIf c.destination value ((m.session.forgive c r).moment c.execution) =
        (.ok (), moment)) :
      Transition env m
        { session := (m.session.forgive c r).after moment
          callers
          control := .execute moment.execution }
  /-- A caller has no place for what it sees of an answer. -/
  | misfit {r : Except Fault Value} {c : Caller} {callers : Callers} {value : Value} {f : Fault}
      {moment : Moment} (control : m.control = .answer r)
      (pop : m.callers.pop? = some (c, callers)) (seen : contained r = .ok value)
      (outcome : Action.assignIf c.destination value ((m.session.forgive c r).moment c.execution) =
        (.error f, moment)) :
      Transition env m
        { session := (m.session.forgive c r).after moment
          callers
          control := .abandon moment.execution f }
  /-- A caller is ended by a fault that aborts. -/
  | abort {f : Fault} {c : Caller} {callers : Callers} (control : m.control = .answer (.error f))
      (pop : m.callers.pop? = some (c, callers)) (aborts : f.aborts = true) :
      Transition env m { m with callers, control := .abandon c.execution f }

namespace Machine

theorem transition_dispatch (env : Environment) (m : Machine) {send : Send}
    (control : m.control = .dispatch send) : Transition env m (m.dispatch env send) := by
  unfold dispatch
  split
  · exact .reject control (.named ‹_›)
  have named : send.arguments.length ≤ Limits.named := by omega
  split
  · exact .reject control (.depth named ‹_›)
  have depth : m.callers.depth < env.settings.maxDepth := by omega
  split
  · exact .reject control (.receiver named depth ‹_›)
  · exact .accept control named depth ‹_›

theorem transition_seek (env : Environment) (m : Machine) {send : Send} {start : ClassId}
    {again : Bool} (control : m.control = .seek send start again) :
    Transition env m (m.seek send start again) := by
  unfold seek
  split
  · exact .begin control ‹_›
  · cases again with
    | true => exact .exhaust control ‹_›
    | false => exact .miss control ‹_›

/-- Code that comes to its end without a return fails. -/
theorem execute_of_atEnd (env : Environment) (m : Machine) {e : Execution}
    (code : e.cursor.atEnd = true) :
    m.execute env e = { m with control := .abandon e .missingReturn } :=
  if_pos code

/-- A statement that is beyond the budget is counted and fails. -/
theorem execute_of_overrun (env : Environment) (m : Machine) {e : Execution}
    (code : e.cursor.atEnd = false) (budget : env.settings.maxStatements ≤ m.session.statements) :
    m.execute env e = { m.counted with
      control := .abandon e (.statementBudget env.settings.maxStatements) } := by
  unfold execute
  rw [if_neg (by rw [code]; exact Bool.false_ne_true)]
  exact if_pos (Nat.lt_succ_of_le budget)

/-- A statement that is within the budget is counted and executed. -/
theorem execute_eq (env : Environment) (m : Machine) {e : Execution}
    (code : e.cursor.atEnd = false) (budget : m.session.statements < env.settings.maxStatements) :
    m.execute env e =
      m.counted.settle env
        (Action.statement (m.scope env (m.session.statements + 1)) (m.session.moment e)).1
        (Action.statement (m.scope env (m.session.statements + 1)) (m.session.moment e)).2 := by
  unfold execute
  rw [if_neg (by rw [code]; exact Bool.false_ne_true)]
  exact if_neg (by omega)

theorem transition_execute (env : Environment) (m : Machine) {e : Execution}
    (control : m.control = .execute e) : Transition env m (m.execute env e) := by
  cases code : e.cursor.atEnd with
  | true =>
    rw [execute_of_atEnd env m code]
    exact .runOff control code
  | false =>
    by_cases budget : m.session.statements < env.settings.maxStatements
    · rw [execute_eq env m code budget]
      generalize outcome : Action.statement
        (m.scope env (m.session.statements + 1)) (m.session.moment e) = result
      match result with
      | (.error f, moment) => exact .fail control code budget outcome
      | (.ok .proceed, moment) => exact .proceed control code budget outcome
      | (.ok (.await send destination), moment) => exact .await control code budget outcome
      | (.ok (.leave ending), moment) => exact .finish control code budget outcome
    · rw [execute_of_overrun env m code (Nat.le_of_not_lt budget)]
      exact .overrun control code (Nat.le_of_not_lt budget)

theorem transition_answer (env : Environment) (m : Machine) {r : Except Fault Value}
    (control : m.control = .answer r) : Transition env m (m.answer r) := by
  rw [answer_eq]
  cases pop : m.callers.pop? with
  | none => exact .halt control pop
  | some p =>
    obtain ⟨c, callers⟩ := p
    dsimp only
    cases seen : contained r with
    | error f =>
      cases r with
      | ok v => cases seen
      | error g =>
        simp only [contained] at seen
        split at seen
        · cases seen
          exact .abort control pop ‹_›
        · cases seen
    | ok value =>
      dsimp only [resume]
      generalize outcome : Action.assignIf c.destination value
        ((m.session.forgive c r).moment c.execution) = result
      match result with
      | (.ok (), moment) => exact .resume control pop seen outcome
      | (.error f, moment) => exact .misfit control pop seen outcome

/-- **Every step of a machine that has not halted is one of the transitions.** -/
theorem transition_step (env : Environment) (m : Machine) (h : m.control.isHalted = false) :
    Transition env m (m.step env) := by
  unfold step
  cases control : m.control with
  | dispatch send => exact transition_dispatch env m control
  | seek send start again => exact transition_seek env m control
  | execute e => exact transition_execute env m control
  | abandon e f => exact .abandon control
  | answer r => exact transition_answer env m control
  | halted r e =>
    rw [control] at h
    cases h

end Machine

end MessageMachine
