import MessageMachine.Machine.Statement

/-!
# One step of the machine

`Machine.step` takes a state to the next one.  It is not recursive: each step checks a send, finds a
handler, executes one statement, records a failure, or delivers an answer.

## Why a run ends

Everything that may go on for long passes through `execute`, and `execute` counts a statement before
it does anything else.  `Machine.potential` turns this into a number: six for each statement that
may still be counted, three for each waiting caller, and a little for the rest of the life of a
send.  Every step lowers it (`potential_step`).  A chain of superclasses that runs in a circle,
handlers that hand over for ever and sends that nest for ever are all bounded by it.
-/

namespace MessageMachine

namespace Session

/-- Records a fault, unless it is the one that is on its way already.  A fault of the resource class
has the log written out. -/
def report (s : Session) (stack : List Activation) (f : Fault) : Session :=
  if s.unwinding = some f then s
  else
    let world := s.world.log (.fault stack f)
    { s with
      world := if f.faultClass = .resourceLimit then world.log .flush else world
      unwinding := some f }

/-- What a statement executed by `e` can change. -/
def moment (s : Session) (e : Execution) : Moment := ⟨s.world, s.statistics, s.nativeCalls, e⟩

/-- The session after a statement. -/
def after (s : Session) (m : Moment) : Session :=
  { s with world := m.world, statistics := m.statistics, nativeCalls := m.nativeCalls }

end Session

namespace Machine

/-- Answers a send that was not let through. -/
def refuse (m : Machine) (f : Fault) : Machine :=
  { m with session := m.session.report m.callers.activations f, control := .answer (.error f) }

/-- Checks a send: the number of its arguments, the depth, and the receiver. -/
def dispatch (env : Environment) (m : Machine) (send : Send) : Machine :=
  if Limits.named < send.arguments.length then m.refuse (.tooManyNamed send.arguments.length)
  else if env.settings.maxDepth ≤ m.callers.depth then m.refuse (.recursionLimit m.callers.depth)
  else
    match m.session.world.objects.get? send.receiver with
    | none => m.refuse (.unknownObject send.receiver)
    | some o => { m with control := .seek send o.classId false }

/-- A handler begins to work. -/
def begin (m : Machine) (send : Send) (cls : Class) (handler : Handler) : Machine :=
  let s := m.session
  let frame := handler.bind s.statistics.trackLocals send.arguments
  let (started, clock) := s.world.clock.read
  { m with
    session :=
      { s with
        world := { s.world with clock }
        statistics := s.statistics.countMessage (m.callers.depth + 1) }
    control := .execute (.ofHandler send cls handler frame started) }

/-- Finds a handler.  When the send was handed over and there is none left, the answer is nil. -/
def seek (m : Machine) (send : Send) (start : ClassId) (again : Bool) : Machine :=
  match m.session.world.classes.findHandler start send.message with
  | some (cls, handler) => m.begin send cls handler
  | none =>
    if again then { m with control := .answer (.ok .nil) }
    else m.refuse (.unknownMessage start send.message)

/-- Keeps the running time of a handler that has ended, if the settings ask for it. -/
def keepTime (env : Environment) (s : Session) (h : Handling) : Session :=
  if env.settings.profile then
    let (ended, clock) := s.world.clock.read
    { s with
      world := { s.world with clock }
      statistics :=
        s.statistics.countTime h.cls h.send.message (Clock.elapsed h.started ended) }
  else s

/-- An execution has ended. -/
def leave (env : Environment) (m : Machine) (e : Execution) (result : Except Fault Ending) :
    Machine :=
  match e.role with
  | none => { m with control := .halted result (some e) }
  | some h =>
    { m with
      session := keepTime env m.session h
      control :=
        match result with
        | .error f => .answer (.error f)
        | .ok (.value v) => .answer (.ok v)
        | .ok .handOver =>
          match h.parent with
          | some parent => .seek h.send parent true
          | none => .answer (.ok .nil) }

/-- Goes on after a statement of `e` that has given `result` and left `moment` behind. -/
def settle (env : Environment) (m : Machine) (result : Except Fault Next) (moment : Moment) :
    Machine :=
  let e := moment.execution
  let m := { m with session := m.session.after moment }
  match result with
  | .error f => { m with control := .abandon e f }
  | .ok .proceed => { m with control := .execute e }
  | .ok (.await send destination) =>
    { m with callers := m.callers.push ⟨e, send, destination⟩, control := .dispatch send }
  | .ok (.leave ending) => m.leave env e (.ok ending)

/-- What a statement may consult, when `statements` have been counted. -/
def scope (env : Environment) (m : Machine) (statements : Nat) : Scope :=
  ⟨env, m.callers.activations, statements⟩

/-- Counts and executes the next statement. -/
def execute (env : Environment) (m : Machine) (e : Execution) : Machine :=
  if e.cursor.atEnd then { m with control := .abandon e .missingReturn }
  else
    let statements := m.session.statements + 1
    let m := { m with session := { m.session with statements } }
    if env.settings.maxStatements < statements then
      { m with control := .abandon e (.statementBudget env.settings.maxStatements) }
    else
      let (result, moment) := Action.statement (m.scope env statements) (m.session.moment e)
      m.settle env result moment

/-- Records the failure of an execution and ends it. -/
def abandon (env : Environment) (m : Machine) (e : Execution) (f : Fault) : Machine :=
  { m with session := m.session.report (e.stackOn m.callers.activations) f }.leave env e (.error f)

/-- Gives a caller the value of the call that it waits in. -/
def resume (m : Machine) (c : Caller) (value : Value) : Machine :=
  let (result, moment) :=
    Action.assignIf c.destination value (m.session.moment c.execution)
  let m := { m with session := m.session.after moment }
  match result with
  | .ok () => { m with control := .execute moment.execution }
  | .error f => { m with control := .abandon moment.execution f }

/-- Answers the innermost send.  A failure becomes nil for the sender, except one that aborts. -/
def answer (m : Machine) (result : Except Fault Value) : Machine :=
  match m.callers.pop? with
  | none => { m with control := .halted (result.map .value) none }
  | some (c, callers) =>
    let m := { m with callers }
    match result with
    | .ok value => m.resume c value
    | .error f =>
      if f.aborts then { m with control := .abandon c.execution f }
      else
        let entry := .sendFailed c.execution.activation? c.send f
        { m with
          session :=
            { m.session with
              world := m.session.world.log entry
              unwinding := none } }.resume c .nil

/-- The next state.  A machine that has halted stays as it is. -/
def step (env : Environment) (m : Machine) : Machine :=
  match m.control with
  | .dispatch send => m.dispatch env send
  | .seek send start again => m.seek send start again
  | .execute e => m.execute env e
  | .abandon e f => m.abandon env e f
  | .answer result => m.answer result
  | .halted .. => m

/-! ## Every step lowers the potential -/

end Machine

/-- How much of the life of a send may still follow before the next statement is counted. -/
def Control.rank : Control → Nat
  | .dispatch _ => 5
  | .seek .. => 4
  | .execute _ => 3
  | .abandon .. => 2
  | .answer _ => 1
  | .halted .. => 0

@[simp] theorem Control.rank_seek (s : Send) (c : ClassId) (b : Bool) :
    (Control.seek s c b).rank = 4 := rfl
@[simp] theorem Control.rank_execute (e : Execution) : (Control.execute e).rank = 3 := rfl
@[simp] theorem Control.rank_abandon (e : Execution) (f : Fault) :
    (Control.abandon e f).rank = 2 := rfl
@[simp] theorem Control.rank_answer (r : Except Fault Value) : (Control.answer r).rank = 1 := rfl
@[simp] theorem Control.rank_halted (r : Except Fault Ending) (e : Option Execution) :
    (Control.halted r e).rank = 0 := rfl

/-- Is there nothing left to do? -/
def Control.isHalted : Control → Bool
  | .halted .. => true
  | _ => false

@[simp] theorem Session.statements_report (s : Session) (stack : List Activation) (f : Fault) :
    (s.report stack f).statements = s.statements := by
  unfold report
  split <;> rfl

@[simp] theorem Session.statements_after (s : Session) (m : Moment) :
    (s.after m).statements = s.statements := rfl

theorem Callers.length_of_pop? {cs rest : Callers} {c : Caller} (h : cs.pop? = some (c, rest)) :
    cs.list.length = rest.list.length + 1 := by
  unfold pop? at h
  split at h
  · cases h
  · rename_i hl
    injection h with h
    injection h with _ h
    rw [hl, ← h]
    split <;> rfl

namespace Machine

/-- A bound on the steps that are left. -/
def potential (env : Environment) (m : Machine) : Nat :=
  6 * (env.settings.maxStatements + 1 - m.session.statements) + 3 * m.callers.list.length +
    m.control.rank

@[simp] theorem statements_keepTime (env : Environment) (s : Session) (h : Handling) :
    (keepTime env s h).statements = s.statements := by
  unfold keepTime
  split <;> rfl

/-- A send that is refused is answered at once. -/
theorem potential_refuse (env : Environment) (m : Machine) (f : Fault) (h : 1 < m.control.rank) :
    (m.refuse f).potential env < m.potential env := by
  simp only [potential, refuse, Session.statements_report, Control.rank_answer]
  omega

/-- Leaving an execution leads to a seek at most. -/
theorem potential_leave (env : Environment) (m : Machine) (e : Execution)
    (result : Except Fault Ending) :
    (m.leave env e result).potential env ≤
      6 * (env.settings.maxStatements + 1 - m.session.statements) + 3 * m.callers.list.length +
        (match result with | .ok _ => 4 | .error _ => 1) := by
  unfold leave
  split
  · cases result <;> simp [potential, Control.rank]
  · cases result with
    | error f => simp [potential, Control.rank]
    | ok ending =>
      cases ending with
      | value v => simp [potential, Control.rank]
      | handOver => simp only [potential, statements_keepTime]; split <;> simp [Control.rank]

/-- After a statement at most one caller more waits, and a send is at most dispatched. -/
theorem potential_settle (env : Environment) (m : Machine) (result : Except Fault Next)
    (moment : Moment) :
    (m.settle env result moment).potential env ≤
      6 * (env.settings.maxStatements + 1 - m.session.statements) + 3 * m.callers.list.length +
        8 := by
  unfold settle
  split
  · simp [potential, Control.rank]
  · simp [potential, Control.rank]
  · simp only [potential, Control.rank, Callers.list_push, List.length_cons,
      Session.statements_after]
    omega
  · refine Nat.le_trans (potential_leave ..) ?_
    simp

/-- A caller that is resumed executes on, or is abandoned. -/
theorem potential_resume (env : Environment) (m : Machine) (c : Caller) (value : Value) :
    (m.resume c value).potential env ≤
      6 * (env.settings.maxStatements + 1 - m.session.statements) + 3 * m.callers.list.length +
        3 := by
  unfold resume
  split
  split <;> simp [potential, Control.rank]

/-- **Every step of a machine that has not halted lowers its potential.** -/
theorem potential_step (env : Environment) (m : Machine) (h : m.control.isHalted = false) :
    (m.step env).potential env < m.potential env := by
  unfold step
  split
  · rename_i send hc
    have hr : m.control.rank = 5 := by rw [hc]; rfl
    unfold dispatch
    split
    · exact potential_refuse env m _ (by omega)
    split
    · exact potential_refuse env m _ (by omega)
    split
    · exact potential_refuse env m _ (by omega)
    · simp only [potential, hr, Control.rank_seek]
      omega
  · rename_i send start again hc
    have hr : m.control.rank = 4 := by rw [hc]; rfl
    unfold seek
    split
    · simp only [potential, begin, hr, Control.rank_execute]
      omega
    split
    · simp only [potential, hr, Control.rank_answer]
      omega
    · exact potential_refuse env m _ (by omega)
  · rename_i e hc
    have hr : m.control.rank = 3 := by rw [hc]; rfl
    unfold execute
    split
    · simp only [potential, hr, Control.rank_abandon]
      omega
    dsimp only
    split
    · simp only [potential, hr, Control.rank_abandon]
      omega
    · refine Nat.lt_of_le_of_lt (potential_settle ..) ?_
      simp only [potential, hr]
      omega
  · rename_i e f hc
    have hr : m.control.rank = 2 := by rw [hc]; rfl
    refine Nat.lt_of_le_of_lt (potential_leave ..) ?_
    simp only [potential, hr, Session.statements_report]
    omega
  · rename_i result hc
    have hr : m.control.rank = 1 := by rw [hc]; rfl
    unfold answer
    split
    · simp only [potential, hr, Control.rank_halted]
      omega
    rename_i c callers hp
    have hl := Callers.length_of_pop? hp
    dsimp only
    split
    · refine Nat.lt_of_le_of_lt (potential_resume ..) ?_
      simp only [potential, hr]
      omega
    split
    · simp only [potential, hr, Control.rank_abandon]
      omega
    · refine Nat.lt_of_le_of_lt (potential_resume ..) ?_
      simp only [potential, hr]
      omega
  · rename_i hc
    rw [hc] at h
    cases h

end Machine

end MessageMachine
