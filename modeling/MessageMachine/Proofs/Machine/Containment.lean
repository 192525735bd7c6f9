import MessageMachine.Proofs.Machine.Nesting
import MessageMachine.Proofs.Machine.Budget
import MessageMachine.Proofs.Statement.Sending

/-!
# Containment of failures

A handler never learns why a send of its own has failed: it sees nil and goes on behind its call,
unless the budget is used up, which ends the handler too.  `Machine.send_contained` follows one send
from the statement that makes it to the step that gives the sender what it sees of the answer.

Three facts come together in it.  A statement that makes a send is a call, and leaves its execution
behind that call (`Action.statement_await`).  The send is answered, with the sender on top of the
same callers as before (`Machine.exists_answer`).  And giving a value to a waiting execution writes
one destination (`Action.assignIf_spec`).

So a fault that is not the budget's cannot come out of a nested send.  If a send from the top fails
with one, it was raised while no other handler was waiting (`Machine.exists_raise`).
-/

namespace MessageMachine

/-! ## One send -/

namespace Machine

/-- `r` is answered to the send that `c` waits for on top of `callers`, and this is what comes of
it.  The sender sees a value or that the budget is used up; any other failure looks like nil to it.
It fails for the budget as it is, or it is given the value: then it is written at the destination at
most, and goes on if there is a place for the value, or no place is wanted. -/
structure Resumes (env : Environment) (m : Machine) (r : Except Fault Value) (c : Caller)
    (callers : Callers) : Prop where
  sees : (∃ v, contained r = .ok v) ∨
    contained r = .error (.statementBudget env.settings.maxStatements)
  forgives : ∀ f, r = .error f → f ≠ .statementBudget env.settings.maxStatements →
    contained r = .ok .nil
  leaves : (m.step env).callers = callers
  fails : ∀ f, contained r = .error f → (m.step env).control = .abandon c.execution f
  receives : ∀ v, contained r = .ok v →
    ∃ x, c.execution.Receives c.destination x ∧
      ((m.step env).control = .execute x ∨ ∃ f, (m.step env).control = .abandon x f) ∧
      ((∀ d, c.destination = some d → d.InRange m.session.world c.execution) →
        (m.step env).control = .execute x ∧
          ∀ d, c.destination = some d →
            ((m.step env).session.world.read x.receiver x.frame d.place.kind d.index).1 = .ok v)

variable {env : Environment}

theorem contained_of_ordinary {f : Fault} (h : f.IsOrdinary) : contained (.error f) = .ok .nil :=
  if_neg (by rw [h]; exact Bool.false_ne_true)

theorem error_of_contained {r : Except Fault Value} {f : Fault} (h : contained r = .error f) :
    r = .error f ∧ f.aborts = true := by
  cases r with
  | ok v => cases h
  | error g =>
    rw [contained] at h
    split at h
    · cases h
      exact ⟨rfl, ‹_›⟩
    · cases h

/-- Giving a value to a caller. -/
theorem resume_spec (m : Machine) (c : Caller) (v : Value) :
    (m.resume c v).callers = m.callers ∧
      ∃ x, c.execution.Receives c.destination x ∧
        ((m.resume c v).control = .execute x ∨ ∃ f, (m.resume c v).control = .abandon x f) ∧
        ((∀ d, c.destination = some d → d.InRange m.session.world c.execution) →
          (m.resume c v).control = .execute x ∧
            ∀ d, c.destination = some d →
              ((m.resume c v).session.world.read x.receiver x.frame d.place.kind d.index).1 =
                .ok v) := by
  unfold resume
  generalize run : Action.assignIf c.destination v (m.session.moment c.execution) = outcome
  obtain ⟨receives, inRange⟩ := Action.assignIf_spec run
  match outcome with
  | (.ok (), moment) =>
    exact ⟨rfl, moment.execution, receives, .inl rfl, fun range => ⟨rfl, (inRange range).2⟩⟩
  | (.error f, moment) =>
    refine ⟨rfl, moment.execution, receives, .inr ⟨f, rfl⟩, fun range => ?_⟩
    cases (inRange range).1

/-- The answer to a send, as far as its sender is concerned. -/
theorem resumes_of_answer {m : Machine} {r : Except Fault Value} {c : Caller} {callers : Callers}
    (control : m.control = .answer r) (pop : m.callers.pop? = some (c, callers))
    (budget : m.AbortsForBudget env) : m.Resumes env r c callers := by
  have budgets : ∀ f, r = .error f → f.aborts = true →
      f = .statementBudget env.settings.maxStatements := by
    intro f hr aborts
    rw [hr] at control
    have h := budget (by rw [control]; exact aborts)
    rw [control] at h
    exact Option.some.inj h
  have forgives : ∀ f, r = .error f → f ≠ .statementBudget env.settings.maxStatements →
      contained r = .ok .nil := by
    intro f hr other
    rw [hr]
    exact contained_of_ordinary (eq_false_of_ne_true fun aborts => other (budgets f hr aborts))
  have step : m.step env = m.answer r := by
    unfold Machine.step
    rw [control]
  rw [answer_eq, pop] at step
  dsimp only at step
  cases seen : contained r with
  | ok v =>
    rw [seen] at step
    obtain ⟨leaves, x, receives, works, range⟩ :=
      resume_spec { m with callers, session := m.session.forgive c r } c v
    dsimp only at step leaves works range
    rw [← step] at leaves works range
    refine ⟨.inl ⟨v, seen⟩, forgives, leaves, fun f h => ?_, fun w h => ?_⟩
    · rw [seen] at h
      cases h
    · rw [seen] at h
      cases h
      refine ⟨x, receives, works, fun inRange => range fun d hd => ?_⟩
      exact Destination.inRange_congr (Session.Idle.forgive m.session c r).objects (inRange d hd)
  | error f =>
    rw [seen] at step
    obtain ⟨hr, aborts⟩ := error_of_contained seen
    refine ⟨.inr (by rw [seen, budgets f hr aborts]), forgives, by rw [step], fun g h => ?_,
      fun v h => ?_⟩
    · rw [seen] at h
      cases h
      rw [step]
    · rw [seen] at h
      cases h

end Machine

/-- A statement that makes a send leaves its execution waiting behind its call. -/
theorem Transition.await_spec {env : Environment} {m m' : Machine} (t : Transition env m m')
    {x : Execution} {send : Send} (control : m.control = .execute x)
    (sends : m'.control = .dispatch send) :
    ∃ index destination positional named next,
      Instruction.decode x.cursor = (.ok (.call index destination positional named), next) ∧
      m'.callers = m.callers.push ⟨{ x with cursor := next }, send, destination⟩ := by
  cases t with
  | await control' code budget outcome =>
    rw [control] at control'
    cases control'
    cases sends
    obtain ⟨index, positional, named, next, decoded, waits⟩ := Action.statement_await outcome
    refine ⟨index, _, positional, named, next, decoded, ?_⟩
    rw [waits]
    rfl
  | finish => exact absurd sends (Machine.control_leave_ne env _ _ _ _).1
  | runOff | overrun | fail | proceed => cases sends
  | reject control' | accept control' | begin control' | miss control' | exhaust control'
  | abandon control' | halt control' | resume control' | misfit control' | abort control' =>
    rw [control] at control'
    cases control'

/-- A send is checked only after a statement has made it, with the sender waiting. -/
theorem Transition.waits_of_dispatch {env : Environment} {m m' : Machine}
    (t : Transition env m m') {send : Send} (sends : m'.control = .dispatch send) :
    m'.callers.list ≠ [] := by
  cases t with
  | await =>
    intro h
    rw [Callers.list_push] at h
    cases h
  | finish | abandon => exact absurd sends (Machine.control_leave_ne env _ _ _ _).1
  | reject | accept | begin | miss | exhaust | runOff | overrun | fail | proceed | halt | resume
  | misfit | abort => cases sends

/-- A handler is looked for the first time right after the check of its send. -/
theorem Transition.dispatch_of_seek {env : Environment} {m m' : Machine} (t : Transition env m m')
    {send : Send} {start : ClassId} (seeks : m'.control = .seek send start false) :
    m.control = .dispatch send ∧ m'.callers = m.callers := by
  cases t with
  | accept control =>
    cases seeks
    exact ⟨control, rfl⟩
  | finish | abandon => exact absurd seeks ((Machine.control_leave_ne env _ _ _ _).2 _)
  | reject | begin | miss | exhaust | runOff | overrun | fail | proceed | await | halt | resume
  | misfit | abort => cases seeks

namespace Machine

variable {env : Environment}

/-- **The life of a nested send, as its sender sees it.** -/
theorem send_contained (hn : env.natives.IsStandard) (m : Machine) {x : Execution} {send : Send}
    (control : m.control = .execute x) (sends : (m.step env).control = .dispatch send) :
    ∃ index destination positional named next,
      Instruction.decode x.cursor = (.ok (.call index destination positional named), next) ∧
      let waiting : Caller := ⟨{ x with cursor := next }, send, destination⟩
      (m.step env).callers = m.callers.push waiting ∧
      ∃ answered r, answered.control = .answer r ∧ answered.callers = m.callers.push waiting ∧
        Leads env (fun s => (m.callers.push waiting).list <:+ s.callers.list) (m.step env)
          answered ∧
        answered.Resumes env r waiting m.callers := by
  have running : m.control.isHalted = false := by
    rw [control]
    rfl
  obtain ⟨index, destination, positional, named, next, decoded, callers⟩ :=
    (transition_step env m running).await_spec control sends
  have serving : (m.step env).Serving := by
    constructor
    · rw [sends]
      rfl
    · intro y hy
      rw [sends] at hy
      cases hy
  obtain ⟨answered, r, answer, callers', leads⟩ := exists_answer (m.step env) serving
  rw [callers] at callers' leads
  -- neither the statement nor anything before it has aborted
  have budget : answered.AbortsForBudget env := by
    refine leads.keeps (fun s hs h => h.step hn hs) (abortsForBudget_of_not_aborts ?_)
    rw [sends]
    rfl
  refine ⟨index, destination, positional, named, next, decoded, callers, answered, r, answer,
    callers', leads, resumes_of_answer answer ?_ budget⟩
  rw [callers']
  exact Callers.pop?_push _ _

/-! ## Failures at the top -/

/-- What holds of every state of the run of a send from the top, which began with `start`: only
handlers are active, nothing waits when the run is over, and the send from the top is the only one
that is checked while nothing waits. -/
structure Rooted (env : Environment) (start m : Machine) : Prop where
  handlers : ∀ x ∈ m.active, x.role.isSome = true
  halted : m.control.isHalted = true → m.callers.list = []
  dispatch : m.callers.list = [] → ∀ s, m.control = .dispatch s → m = start
  seek : m.callers.list = [] → ∀ s c, m.control = .seek s c false → m = start.step env

theorem rooted_ofSend (env : Environment) (session : Session) (send : Send) :
    Rooted env (ofSend session send) (ofSend session send) :=
  ⟨fun x hx => (by cases hx), fun h => (by cases h), fun _ _ _ => rfl,
    fun _ _ _ h => (by cases h)⟩

/-- When only handlers are active, the machine halts with nothing waiting. -/
theorem waits_of_halts {m : Machine}
    (hm : m.control.isHalted = false) (handlers : ∀ x ∈ m.active, x.role.isSome = true)
    (halts : (m.step env).control.isHalted = true) : (m.step env).callers.list = [] := by
  have t := transition_step env m hm
  have serving : m.Serving := ⟨hm, fun x hx => handlers x (mem_active_of_work hx)⟩
  have contradiction : ¬ (m.step env).Serving := by
    intro h
    rw [h.running] at halts
    cases halts
  by_cases answered : ∃ r, m.control = .answer r
  · obtain ⟨r, control⟩ := answered
    cases pop : m.callers.pop? with
    | none =>
      unfold Machine.step
      rw [control]
      dsimp only
      rw [answer_eq, pop]
      exact Callers.list_of_pop?_none pop
    | some p =>
      obtain ⟨c, callers⟩ := p
      have mem : c ∈ m.callers.list := by
        rw [Callers.list_of_pop? pop]
        exact List.mem_cons_self
      have role := handlers c.execution (mem_active_of_waits mem)
      exact absurd (t.serving_of_answer control pop role).1 contradiction
  · have next := t.serving_cases serving fun r control => answered ⟨r, control⟩
    exact absurd next.1 contradiction

theorem Rooted.step {start m : Machine}
    (hm : m.control.isHalted = false) (h : Rooted env start m) :
    Rooted env start (m.step env) := by
  have t := transition_step env m hm
  refine ⟨t.handlers h.handlers, waits_of_halts hm h.handlers, fun alone s sends => ?_,
    fun alone s c seeks => ?_⟩
  · exact absurd alone (t.waits_of_dispatch sends)
  · obtain ⟨checks, callers⟩ := t.dispatch_of_seek seeks
    rw [callers] at alone
    rw [h.dispatch alone s checks]

/-- The ways in which the fault of a send from the top is raised by the step from `m`: the send is
not let through, or a handler fails that runs alone, in a statement of its own or because the answer
to its send does not fit the destination. -/
inductive RaisedAtTop (env : Environment) (start m : Machine) (f : Fault) : Prop where
  | refused (first : m = start ∨ m = start.step env) (step : m.step env = m.refuse f)
  | statement {x x' : Execution} {a : Activation} (control : m.control = .execute x)
      (continues : x.Continues x') (fails : (m.step env).control = .abandon x' f)
      (alone : (m.step env).stack = [a])
  | answer {r : Except Fault Value} {c : Caller} {x' : Execution} {a : Activation}
      (control : m.control = .answer r) (waiting : m.callers.list = [c])
      (continues : c.execution.Continues x') (fails : (m.step env).control = .abandon x' f)
      (alone : (m.step env).stack = [a])

/-- A handler that fails while nothing waits is the only one that runs. -/
theorem stack_alone {m : Machine} {x : Execution} {f : Fault} (control : m.control = .abandon x f)
    (role : x.role.isSome = true) (callers : m.callers.list = []) : ∃ a, m.stack = [a] := by
  obtain ⟨h, role⟩ := Option.isSome_iff_exists.mp role
  refine ⟨h.activation, ?_⟩
  have activations : m.callers.activations = [] := by
    rw [m.callers.activations_eq, callers]
    rfl
  rw [stack, control]
  dsimp only
  rw [Execution.stackOn, Execution.activation?, role, activations]
  rfl

/-- **The step to the first state at which a fault shows at the top raises it.** -/
theorem raisedAtTop_of_step (hn : env.natives.IsStandard) {start m : Machine} {f : Fault}
    (hm : m.control.isHalted = false) (rooted : Rooted env start m) (ordinary : f.IsOrdinary)
    (fresh : ¬ (m.callers.list = [] ∧ m.control.fault? = some f))
    (alone : (m.step env).callers.list = []) (fault : (m.step env).control.fault? = some f) :
    RaisedAtTop env start m f := by
  have t := transition_step env m hm
  have next := rooted.step hm
  have only {x : Execution} {g : Fault} (control : (m.step env).control = .abandon x g) :
      ∃ a, (m.step env).stack = [a] := by
    refine stack_alone control (next.handlers x (mem_active_of_work ?_)) alone
    rw [control]
    rfl
  generalize e : m.step env = m' at t alone fault only
  cases t with
  | reject control =>
    cases fault
    exact .refused (.inl (rooted.dispatch alone _ control)) e
  | miss control =>
    cases fault
    exact .refused (.inr (rooted.seek alone _ _ control)) e
  | runOff control =>
    cases fault
    obtain ⟨a, stack⟩ := only rfl
    exact .statement control (.refl _) (by rw [e]) (by rw [e]; exact stack)
  | overrun =>
    cases fault
    cases ordinary
  | fail control _ _ outcome =>
    cases fault
    obtain ⟨a, stack⟩ := only rfl
    have continues := ((Action.Tame.statement _ hn).of_run outcome).1.execution
    exact .statement control continues (by rw [e]) (by rw [e]; exact stack)
  | finish control =>
    rw [fault?_leave] at fault
    cases fault
  | abandon control =>
    -- the fault has shown before
    rw [abandon, fault?_leave] at fault
    rw [abandon, callers_leave] at alone
    exact absurd ⟨alone, by rw [control]; exact fault⟩ fresh
  | @halt r control =>
    cases r with
    | ok v => cases fault
    | error g => exact absurd ⟨alone, by rw [control]; exact fault⟩ fresh
  | misfit control pop seen outcome =>
    cases fault
    obtain ⟨a, stack⟩ := only rfl
    have waiting := Callers.list_of_pop? pop
    rw [show _ = [] from alone] at waiting
    have continues := ((Action.Tame.assignIf _ _).of_run outcome).1.execution
    exact .answer control waiting continues (by rw [e]) (by rw [e]; exact stack)
  | abort control pop aborts =>
    cases fault
    rw [show f.aborts = false from ordinary] at aborts
    cases aborts
  | accept | begin | exhaust | proceed | await | resume => cases fault

/-- **Where the fault of a send from the top comes from.** -/
theorem exists_raise (hn : env.natives.IsStandard) {start : Machine} {f : Fault}
    (ordinary : f.IsOrdinary) (m : Machine) (rooted : Rooted env start m)
    (fresh : ¬ (m.callers.list = [] ∧ m.control.fault? = some f))
    (fails : (m.run env).control.fault? = some f) :
    ∃ m₀ ∈ m.trace env, RaisedAtTop env start m₀ f := by
  induction m using run_induction env with
  | halted m hm =>
    rw [run_of_halted env hm] at fails
    exact absurd ⟨rooted.halted hm, fails⟩ fresh
  | running m hm ih =>
    by_cases shows : (m.step env).callers.list = [] ∧ (m.step env).control.fault? = some f
    · exact ⟨m, mem_trace_self env m,
        raisedAtTop_of_step hn hm rooted ordinary fresh shows.1 shows.2⟩
    · rw [run_step] at ih
      obtain ⟨m₀, mem, raised⟩ := ih (rooted.step hm) shows fails
      exact ⟨m₀, mem_trace_of_step env hm mem, raised⟩

end Machine

/-! ## Top-level sends -/

namespace Engine

/-- **Failures are contained.**  Let the natives be standard.

A statement that makes a send, at whatever state, is a call.  The send is answered; meanwhile the
sender waits unchanged behind its call.  What it sees of the answer is a value or the exhausted
budget, and nil in the place of every other failure; with a value it goes on, if the destination of
the call has a place for it, and its frame is changed nowhere else.

So, when a send from the top fails for something else than the budget, it was not let through
itself, or a handler has failed in a statement of its own while no other one was running. -/
theorem send_contains_failures (e : Engine) (hn : e.natives.IsStandard) (send : Send) :
    (∀ (m : Machine) (x : Execution) (inner : Send), m.control = .execute x →
      (m.step e.environment).control = .dispatch inner →
      ∃ index destination positional named next,
        Instruction.decode x.cursor = (.ok (.call index destination positional named), next) ∧
        let waiting : Caller := ⟨{ x with cursor := next }, inner, destination⟩
        (m.step e.environment).callers = m.callers.push waiting ∧
        ∃ answered r, answered.control = .answer r ∧
          answered.callers = m.callers.push waiting ∧
          Machine.Leads e.environment
            (fun s => (m.callers.push waiting).list <:+ s.callers.list)
            (m.step e.environment) answered ∧
          answered.Resumes e.environment r waiting m.callers) ∧
    (∀ f, (e.send send).1 = .error f → f ≠ .statementBudget e.settings.maxStatements →
      ∃ m ∈ e.states send, Machine.RaisedAtTop e.environment (e.start send) m f) := by
  refine ⟨fun m x inner control sends => Machine.send_contained hn m control sends, ?_⟩
  intro f fails other
  rw [send_eq, Machine.result_eq_error_iff (Machine.isHalted_run _ _)] at fails
  have ordinary : f.IsOrdinary := by
    refine eq_false_of_ne_true fun aborts => other ?_
    have budget := e.abortsForBudget_run send hn ((Control.aborts_of_fault? fails).trans aborts)
    rw [fails] at budget
    exact Option.some.inj budget
  exact Machine.exists_raise hn ordinary (e.start send)
    (Machine.rooted_ofSend e.environment _ send) (fun h => by cases h.2) fails

/-- An engine with one object, whose handler for message 1 sends the object message 9, which it has
no handler for, and answers with what it sees. -/
def asking : Engine :=
  ofBody {} []
    #[1, 0, 0x64, 0, 0, 0, 0, 0, 2, 2, 0, 0, 0, 0x20, 2, 9, 0, 0, 0xB0, 0, 0x90, 0, 0, 0, 0]

theorem send_contains_failures_asking :
    asking.natives.IsStandard ∧
      (∃ (m : Machine) (x : Execution) (inner : Send), m.control = .execute x ∧
        (m.step asking.environment).control = .dispatch inner ∧
        ∃ (answered : Machine) (r : Except Fault Value) (waiting : Caller),
          answered.control = .answer r ∧
          answered.Resumes asking.environment r waiting m.callers) ∧
      (asking.send ⟨⟨0⟩, ⟨9⟩, []⟩).1 = .error (.unknownMessage ⟨1⟩ ⟨9⟩) ∧
      ∃ m ∈ asking.states ⟨⟨0⟩, ⟨9⟩, []⟩,
        Machine.RaisedAtTop asking.environment (asking.start ⟨⟨0⟩, ⟨9⟩, []⟩) m
          (.unknownMessage ⟨1⟩ ⟨9⟩) := by
  have natives : asking.natives.IsStandard := NativeTable.isStandard_standard
  have fails : (asking.send ⟨⟨0⟩, ⟨9⟩, []⟩).1 = .error (.unknownMessage ⟨1⟩ ⟨9⟩) := by
    rw [send_eq, Machine.run_eq_iterate _ 3 _ rfl]
    rfl
  -- the handler for message 1 at its first statement, which makes a send
  let m := (Machine.step asking.environment)^[2] (asking.start ⟨⟨0⟩, ⟨1⟩, []⟩)
  have works : ∃ x, m.control = .execute x := by
    have rank : m.control.rank = 3 := by decide +kernel
    cases control : m.control with
    | execute x => exact ⟨x, rfl⟩
    | _ =>
      rw [control] at rank
      cases rank
  have sends : ∃ inner, (m.step asking.environment).control = .dispatch inner := by
    have rank : (m.step asking.environment).control.rank = 5 := by decide +kernel
    cases control : (m.step asking.environment).control with
    | dispatch inner => exact ⟨inner, rfl⟩
    | _ =>
      rw [control] at rank
      cases rank
  obtain ⟨x, works⟩ := works
  obtain ⟨inner, sends⟩ := sends
  obtain ⟨nested, -⟩ := send_contains_failures asking natives ⟨⟨0⟩, ⟨1⟩, []⟩
  obtain ⟨-, raised⟩ := send_contains_failures asking natives ⟨⟨0⟩, ⟨9⟩, []⟩
  obtain ⟨_, _, _, _, _, _, _, answered, r, answer, _, _, resumes⟩ := nested m x inner works sends
  exact ⟨natives, ⟨m, x, inner, works, sends, answered, r, _, answer, resumes⟩, fails,
    raised _ fails (by decide)⟩

end Engine

end MessageMachine
