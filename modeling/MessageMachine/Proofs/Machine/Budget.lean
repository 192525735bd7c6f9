import MessageMachine.Proofs.Machine.Trace

/-!
# The statement budget

A top-level send may count as many statements as the settings say, and one more: the one that is too
many, which is counted, not executed, and ends the whole chain of sends.  This module follows the
counter along a run.

## One step

Three lemmas say what a step adds.  `Transition.statements_add` is the book-keeping of statements:
one is executed for each one that is counted, except that one is counted and not executed when the
run begins to abort.  `Transition.begins_add` bounds the handlers: each one begins to work for the
send from the top, or for a statement that made a send or handed one over.
`Transition.messages_add` says that the counter of handlers counts exactly these.

## A run

`Budgeted` is the invariant.  Before a run aborts the counter is within the budget, and afterwards
it is one above it; and the fault that aborts names the budget of the settings.  Together with the
sums along the trace this gives `Engine.send_within_budget`.

Circles of superclasses, handlers that hand over for ever and sends that nest for ever need no word
of their own here: each round of any of them costs a statement.
-/

namespace MessageMachine

namespace Control

/-- The fault that is on its way outwards, or has arrived. -/
def fault? : Control → Option Fault
  | .abandon _ f | .answer (.error f) | .halted (.error f) _ => some f
  | _ => none

/-- Is the fault one that aborts the whole chain of sends? -/
def aborts (c : Control) : Bool := c.fault?.any Fault.aborts

/-- Is a send being checked, or a handler being looked for? -/
def isSending : Control → Bool
  | .dispatch _ | .seek .. => true
  | _ => false

theorem aborts_of_fault? {c : Control} {f : Fault} (h : c.fault? = some f) :
    c.aborts = f.aborts := by
  rw [aborts, h, Option.any_some]

theorem aborts_of_none {c : Control} (h : c.fault? = none) : c.aborts = false := by
  rw [aborts, h, Option.any_none]

end Control

namespace Machine

/-- The fault of an execution that ends is passed on. -/
theorem fault?_leave (env : Environment) (m : Machine) (e : Execution)
    (result : Except Fault Ending) :
    (m.leave env e result).control.fault? =
      match result with
      | .ok _ => none
      | .error f => some f := by
  cases role : e.role with
  | none =>
    rw [leave_alone env m role]
    cases result <;> rfl
  | some h =>
    rw [leave_handler env m role]
    show (h.followUp result).fault? = _
    rcases h.followUp_cases result with ⟨f, rfl, e⟩ | ⟨_, v, rfl, e⟩ | ⟨parent, rfl, e⟩
    all_goals
      rw [e]
      rfl

/-- No send follows the failure of an execution. -/
theorem isSending_abandon (env : Environment) (m : Machine) (e : Execution) (f : Fault) :
    (m.abandon env e f).control.isSending = false := by
  unfold abandon leave
  split <;> rfl

/-- An answer that a sender sees a value of does not abort. -/
theorem aborts_of_contained {r : Except Fault Value} {v : Value} (h : contained r = .ok v) :
    (Control.answer r).aborts = false := by
  cases r with
  | ok v => rfl
  | error f =>
    rw [contained] at h
    split at h
    · cases h
    · exact eq_false_of_ne_true ‹_›

end Machine

namespace Transition

open Machine

variable {env : Environment} {m m' : Machine}

/-- **A step counts what it executes, or the run begins to abort.**  In the second case a statement
is counted that is one too many, and nothing else happens to the session. -/
theorem statements_cases (hn : env.natives.IsStandard) (t : Transition env m m') :
    (m'.control.aborts = m.control.aborts ∧
      m'.session.statements = m.session.statements + (m.executes env).toNat) ∨
    ∃ e, m.control = .execute e ∧ e.cursor.atEnd = false ∧
      env.settings.maxStatements ≤ m.session.statements ∧
      m' = { m.counted with
        control := .abandon e (.statementBudget env.settings.maxStatements) } := by
  cases t with
  | overrun control code budget => exact .inr ⟨_, control, code, budget, rfl⟩
  | reject control rejects =>
    left
    rw [executes, control]
    exact ⟨rejects.ordinary, (idle_refuse _ _).statements⟩
  | miss control =>
    left
    rw [executes, control]
    exact ⟨rfl, (idle_refuse _ _).statements⟩
  | accept control | begin control | exhaust control =>
    left
    rw [executes, control]
    exact ⟨rfl, rfl⟩
  | runOff control code =>
    left
    rw [executes_of_atEnd env control code, control]
    exact ⟨rfl, rfl⟩
  | proceed control code budget | await control code budget =>
    left
    rw [executes_of_execute control code budget, control]
    exact ⟨rfl, rfl⟩
  | fail control code budget outcome =>
    left
    rw [executes_of_execute control code budget, control]
    exact ⟨((Action.Tame.statement _ hn).of_run outcome).2 _ rfl, rfl⟩
  | finish control code budget outcome =>
    left
    rw [executes_of_execute control code budget, control]
    exact ⟨Control.aborts_of_none (fault?_leave env _ _ _), (idle_leave env _ _ _).statements⟩
  | abandon control =>
    left
    rw [executes, control]
    exact ⟨Control.aborts_of_fault? (fault?_leave env _ _ _), (idle_abandon env _ _ _).statements⟩
  | @halt r control =>
    left
    rw [executes, control]
    cases r <;> exact ⟨rfl, rfl⟩
  | @resume r c _ _ _ control _ seen =>
    left
    rw [executes, control]
    exact ⟨(aborts_of_contained seen).symm, (Session.Idle.forgive _ c r).statements⟩
  | @misfit r c _ _ _ _ control _ seen outcome =>
    left
    rw [executes, control]
    exact ⟨(((Action.Tame.assignIf _ _).of_run outcome).2 _ rfl).trans
      (aborts_of_contained seen).symm, (Session.Idle.forgive _ c r).statements⟩
  | abort control =>
    left
    rw [executes, control]
    exact ⟨rfl, rfl⟩

/-- The book-keeping of statements. -/
theorem statements_add (hn : env.natives.IsStandard) (t : Transition env m m') :
    m'.session.statements + m.control.aborts.toNat =
      m.session.statements + (m.executes env).toNat + m'.control.aborts.toNat := by
  rcases t.statements_cases hn with ⟨aborts, statements⟩ | ⟨e, control, -, budget, rfl⟩
  · rw [aborts, statements]
  · rw [executes_of_overrun control budget, control]
    rfl

/-- **Nothing is executed any more when a run aborts**, and the fault stays the same. -/
theorem idle_of_aborts (t : Transition env m m') (h : m.control.aborts = true) :
    m.session.Idle m'.session ∧ m'.control.fault? = m.control.fault? := by
  cases t with
  | reject control | accept control | begin control | miss control | exhaust control
  | runOff control | overrun control | fail control | proceed control | await control
  | finish control =>
    rw [control] at h
    cases h
  | abandon control =>
    rw [control]
    exact ⟨idle_abandon env _ _ _, fault?_leave env _ _ _⟩
  | @halt r control =>
    rw [control]
    cases r <;> exact ⟨.refl _, rfl⟩
  | resume control _ seen | misfit control _ seen =>
    rw [control, aborts_of_contained seen] at h
    cases h
  | abort control =>
    rw [control]
    exact ⟨.refl _, rfl⟩

/-- What begins to work, and what may still begin without a statement in between. -/
theorem begins_add (t : Transition env m m') :
    m.begins.toNat + m'.control.isSending.toNat ≤
      m.control.isSending.toNat + (m.executes env).toNat := by
  cases t with
  | reject control =>
    rw [begins, control]
    exact Nat.zero_le _
  | accept control =>
    rw [begins, control]
    exact Nat.le_add_right _ _
  | begin control found =>
    rw [begins_of_seek control, control, found]
    exact Nat.le_add_right _ _
  | miss control missing | exhaust control missing =>
    rw [begins_of_seek control, missing]
    exact Nat.zero_le _
  | runOff control | overrun control | fail control | proceed control | halt control
  | resume control | misfit control | abort control =>
    rw [begins, control]
    exact Nat.zero_le _
  | await control code budget =>
    rw [begins, executes_of_execute control code budget, control]
    exact Nat.le_add_left _ _
  | finish control code budget =>
    rw [begins, executes_of_execute control code budget, control]
    dsimp only [Bool.toNat_false]
    rw [Nat.zero_add]
    exact Nat.le_trans (Bool.toNat_le _) (Nat.le_add_left _ _)
  | abandon control =>
    rw [begins, control]
    rw [isSending_abandon]
    exact Nat.zero_le _

/-- Only a handler that begins to work is counted as one. -/
theorem messages_add (hn : env.natives.IsStandard) (t : Transition env m m') :
    m'.session.statistics.messages =
      m.session.statistics.messages + UInt64.ofNat m.begins.toNat := by
  have same (b : m.begins = false)
      (h : m'.session.statistics.messages = m.session.statistics.messages) :
      m'.session.statistics.messages =
        m.session.statistics.messages + UInt64.ofNat m.begins.toNat := by
    rw [b, h]
    exact (UInt64.add_zero _).symm
  -- a statement counts native calls only
  have counts {e : Execution} {x : Except Fault Next} {moment : Moment}
      (outcome : Action.statement (m.scope env (m.session.statements + 1)) (m.session.moment e) =
        (x, moment)) : moment.statistics.messages = m.session.statistics.messages :=
    ((Action.Tame.statement _ hn).of_run outcome).1.messages
  cases t with
  | reject control => exact same (by rw [begins, control]) (idle_refuse _ _).messages
  | miss control missing =>
    refine same ?_ (idle_refuse _ _).messages
    rw [begins_of_seek control, missing]
    rfl
  | begin control found =>
    rw [begins_of_seek control, found]
    rfl
  | exhaust control missing =>
    refine same ?_ rfl
    rw [begins_of_seek control, missing]
    rfl
  | accept control | runOff control | overrun control | halt control | abort control =>
    exact same (by rw [begins, control]) rfl
  | fail control _ _ outcome | proceed control _ _ outcome | await control _ _ outcome =>
    exact same (by rw [begins, control]) (counts outcome)
  | finish control _ _ outcome =>
    exact same (by rw [begins, control]) ((idle_leave env _ _ _).messages.trans (counts outcome))
  | abandon control =>
    exact same (by rw [begins, control]) (idle_abandon env _ _ _).messages
  | @resume r c _ _ _ control _ _ outcome | @misfit r c _ _ _ _ control _ _ outcome =>
    have h := ((Action.Tame.assignIf _ _).of_run outcome).1.messages
    exact same (by rw [begins, control]) (h.trans (Session.Idle.forgive _ c r).messages)

end Transition

/-! ## A run -/

/-- A run that aborts does so for the budget of the settings. -/
def Machine.AbortsForBudget (env : Environment) (m : Machine) : Prop :=
  m.control.aborts = true →
    m.control.fault? = some (.statementBudget env.settings.maxStatements)

/-- The counter is within the budget of the settings until the run aborts, and then one above it. -/
structure Machine.Budgeted (env : Environment) (m : Machine) : Prop where
  within : m.control.aborts = false → m.session.statements ≤ env.settings.maxStatements
  beyond : m.control.aborts = true → m.session.statements = env.settings.maxStatements + 1

namespace Machine

variable {env : Environment}

/-- A statement that is executed is within the budget. -/
theorem lt_of_executes {m : Machine} (h : m.executes env = true) :
    m.session.statements < env.settings.maxStatements := by
  unfold executes at h
  split at h
  · rw [Bool.and_eq_true, decide_eq_true_eq] at h
    exact h.2
  · cases h

theorem abortsForBudget_of_not_aborts {m : Machine} (h : m.control.aborts = false) :
    m.AbortsForBudget env := by
  intro ha
  rw [h] at ha
  cases ha

theorem AbortsForBudget.step (hn : env.natives.IsStandard) {m : Machine}
    (hm : m.control.isHalted = false) (h : m.AbortsForBudget env) :
    (m.step env).AbortsForBudget env := by
  have t := transition_step env m hm
  intro ha
  rcases t.statements_cases hn with ⟨aborts, -⟩ | ⟨e, -, -, -, step⟩
  · rw [aborts] at ha
    rw [(t.idle_of_aborts ha).2]
    exact h ha
  · rw [step]
    rfl

/-- **Every step keeps the counter within the budget.** -/
theorem Budgeted.step (hn : env.natives.IsStandard) {m : Machine} (hm : m.control.isHalted = false)
    (h : m.Budgeted env) : (m.step env).Budgeted env := by
  have t := transition_step env m hm
  rcases t.statements_cases hn with ⟨aborts, statements⟩ | ⟨e, control, -, budget, step⟩
  · constructor
    · intro ha
      have within := h.within (aborts ▸ ha)
      rw [statements]
      cases he : m.executes env with
      | false => exact within
      | true => exact lt_of_executes he
    · intro ha
      rw [aborts] at ha
      rw [(t.idle_of_aborts ha).1.statements]
      exact h.beyond ha
  · rw [step]
    constructor
    · intro ha
      cases ha
    · intro _
      have within := h.within (by rw [control]; rfl)
      exact congrArg (· + 1) (Nat.le_antisymm within budget)

theorem budgeted_ofSend (session : Session) (send : Send) (h : session.statements = 0) :
    (ofSend session send).Budgeted env :=
  ⟨fun _ => h ▸ Nat.zero_le _, fun ha => by cases ha⟩

/-- What has halted neither executes nor begins anything. -/
theorem executes_of_halted (env : Environment) {m : Machine} (h : m.control.isHalted = true) :
    m.executes env = false ∧ m.begins = false ∧ m.control.isSending = false := by
  cases control : m.control with
  | halted r e =>
    rw [executes, begins, control]
    exact ⟨rfl, rfl, rfl⟩
  | _ =>
    rw [control] at h
    cases h

/-- The states of a kind along a trace. -/
theorem countP_trace_of_running (env : Environment) (p : Machine → Bool) {m : Machine}
    (h : m.control.isHalted = false) :
    (m.trace env).countP p = ((m.step env).trace env).countP p + (p m).toNat := by
  rw [trace_of_running env h, List.countP_cons]
  cases p m <;> rfl

theorem countP_trace_of_halted (env : Environment) (p : Machine → Bool) {m : Machine}
    (h : m.control.isHalted = true) : (m.trace env).countP p = (p m).toNat := by
  rw [trace_of_halted env h, List.countP_singleton]
  cases p m <;> rfl

/-- The statements that a run counts: those that it executes, and the one at which it aborts. -/
theorem statements_run (env : Environment) (hn : env.natives.IsStandard) (m : Machine) :
    (m.run env).session.statements + m.control.aborts.toNat =
      m.session.statements + (m.trace env).countP (executes env) +
        (m.run env).control.aborts.toNat := by
  induction m using run_induction env with
  | halted m hm =>
    rw [run_of_halted env hm, countP_trace_of_halted env _ hm, (executes_of_halted env hm).1]
    rfl
  | running m hm ih =>
    have step := (transition_step env m hm).statements_add hn
    rw [run_step] at ih
    rw [countP_trace_of_running env _ hm]
    omega

/-- The handlers of a run: at most one for the send from the top, and one for each statement. -/
theorem begins_run (env : Environment) (m : Machine) :
    (m.trace env).countP begins ≤
      m.control.isSending.toNat + (m.trace env).countP (executes env) := by
  induction m using run_induction env with
  | halted m hm =>
    rw [countP_trace_of_halted env _ hm, (executes_of_halted env hm).2.1]
    exact Nat.zero_le _
  | running m hm ih =>
    have step := (transition_step env m hm).begins_add
    rw [countP_trace_of_running env _ hm, countP_trace_of_running env _ hm]
    omega

/-- The counter of handlers counts the handlers of the run. -/
theorem messages_run (env : Environment) (hn : env.natives.IsStandard) (m : Machine) :
    (m.run env).session.statistics.messages =
      m.session.statistics.messages + UInt64.ofNat ((m.trace env).countP begins) := by
  induction m using run_induction env with
  | halted m hm =>
    rw [run_of_halted env hm, countP_trace_of_halted env _ hm,
      (executes_of_halted env hm).2.1]
    exact (UInt64.add_zero _).symm
  | running m hm ih =>
    rw [← run_step, ih, (transition_step env m hm).messages_add hn,
      countP_trace_of_running env _ hm, UInt64.ofNat_add, UInt64.add_assoc,
      UInt64.add_comm (UInt64.ofNat (begins m).toNat)]

/-- After it has begun to abort, a run does nothing but end. -/
theorem idle_run_of_aborts (env : Environment) (m : Machine) (h : m.control.aborts = true) :
    m.session.Idle (m.run env).session ∧ (m.run env).control.fault? = m.control.fault? := by
  induction m using run_induction env with
  | halted m hm =>
    rw [run_of_halted env hm]
    exact ⟨.refl _, rfl⟩
  | running m hm ih =>
    obtain ⟨idle, fault⟩ := (transition_step env m hm).idle_of_aborts h
    have aborts : (m.step env).control.aborts = true := by
      rw [Control.aborts, fault]
      exact h
    rw [run_step] at ih
    exact ⟨idle.trans (ih aborts).1, (ih aborts).2.trans fault⟩

/-- **Where a run aborts.**  There is a state at which the budget is used up and one more statement
is counted; the step from there changes nothing but the counter and the control, and from then on
the run only ends. -/
theorem exists_overrun (env : Environment) (hn : env.natives.IsStandard) (m : Machine)
    (h : m.control.aborts = false) (hr : (m.run env).control.aborts = true) :
    ∃ m₀ ∈ m.trace env, ∃ e, m₀.control = .execute e ∧ e.cursor.atEnd = false ∧
      env.settings.maxStatements ≤ m₀.session.statements ∧
      m₀.step env = { m₀.counted with
        control := .abandon e (.statementBudget env.settings.maxStatements) } ∧
      m₀.counted.session.Idle (m.run env).session := by
  induction m using run_induction env with
  | halted m hm =>
    rw [run_of_halted env hm, h] at hr
    cases hr
  | running m hm ih =>
    rcases (transition_step env m hm).statements_cases hn with
      ⟨aborts, -⟩ | ⟨e, control, code, budget, step⟩
    · rw [run_step] at ih
      obtain ⟨m₀, hm₀, found⟩ := ih (aborts.trans h) hr
      exact ⟨m₀, mem_trace_of_step env hm hm₀, found⟩
    · have idle := (idle_run_of_aborts env (m.step env) (by rw [step]; rfl)).1
      rw [run_step, step] at idle
      exact ⟨m, mem_trace_self env m, e, control, code, budget, step, idle⟩

/-- The answer of a machine that has halted is the fault that it has halted with, if any. -/
theorem result_eq_error_iff {m : Machine} (h : m.control.isHalted = true) (f : Fault) :
    m.result = .error f ↔ m.control.fault? = some f := by
  unfold result
  cases control : m.control with
  | halted r e =>
    match r with
    | .ok (.value v) => exact ⟨fun h => (by cases h), fun h => (by cases h)⟩
    | .ok .handOver => exact ⟨fun h => (by cases h), fun h => (by cases h)⟩
    | .error g =>
      constructor
      · intro h
        cases h
        rfl
      · intro h
        cases h
        rfl
  | _ =>
    rw [control] at h
    cases h

end Machine

/-! ## Top-level sends -/

namespace Engine

section

variable (e : Engine) (send : Send) (hn : e.natives.IsStandard)

include hn

theorem budgeted_of_mem {m : Machine} (h : m ∈ e.states send) : m.Budgeted e.environment :=
  Machine.trace_invariant (P := Machine.Budgeted e.environment) e.environment
    (fun _ hm h => h.step hn hm) _ (Machine.budgeted_ofSend _ send rfl) m h

theorem budgeted_run : ((e.start send).run e.environment).Budgeted e.environment :=
  e.budgeted_of_mem send hn (Machine.run_mem_trace _ _)

theorem abortsForBudget_run :
    ((e.start send).run e.environment).AbortsForBudget e.environment :=
  Machine.trace_invariant (P := Machine.AbortsForBudget e.environment) e.environment
    (fun _ hm h => h.step hn hm) (e.start send) (Machine.abortsForBudget_of_not_aborts rfl) _
    (Machine.run_mem_trace _ _)

/-- A send fails for its budget if and only if its run aborts. -/
theorem result_eq_statementBudget_iff :
    (e.send send).1 = .error (.statementBudget e.settings.maxStatements) ↔
      ((e.start send).run e.environment).control.aborts = true := by
  rw [send_eq, Machine.result_eq_error_iff (Machine.isHalted_run _ _)]
  constructor
  · intro fault
    exact Control.aborts_of_fault? fault
  · intro aborts
    exact e.abortsForBudget_run send hn aborts

/-- The statements that a send counts: those that it executes, and the one that is too many. -/
theorem statements_eq :
    ((e.start send).run e.environment).session.statements =
      (e.states send).countP (Machine.executes e.environment) +
        ((e.start send).run e.environment).control.aborts.toNat := by
  have h := Machine.statements_run e.environment hn (e.start send)
  rw [show (e.start send).session.statements = 0 from rfl,
    show (e.start send).control.aborts = false from rfl, Nat.zero_add] at h
  exact h

theorem executed_le :
    (e.states send).countP (Machine.executes e.environment) ≤ e.settings.maxStatements := by
  have budgeted := e.budgeted_run send hn
  have h := e.statements_eq send hn
  cases aborts : ((e.start send).run e.environment).control.aborts with
  | false =>
    rw [aborts] at h
    exact Nat.le_trans (Nat.le_of_eq h.symm) (budgeted.within aborts)
  | true =>
    rw [aborts, budgeted.beyond aborts] at h
    exact Nat.le_of_eq (Nat.succ.inj h).symm

theorem statements_le :
    ((e.start send).run e.environment).session.statements ≤ e.settings.maxStatements + 1 := by
  have h := e.statements_eq send hn
  have executed := e.executed_le send hn
  have := Bool.toNat_le ((e.start send).run e.environment).control.aborts
  omega

/-- The budget is passed, by one statement, if and only if the send fails for it. -/
theorem statements_eq_succ_iff :
    ((e.start send).run e.environment).session.statements = e.settings.maxStatements + 1 ↔
      (e.send send).1 = .error (.statementBudget e.settings.maxStatements) := by
  have budgeted := e.budgeted_run send hn
  rw [e.result_eq_statementBudget_iff send hn]
  constructor
  · intro h
    by_contra aborts
    have within : ((e.start send).run e.environment).session.statements ≤
        e.settings.maxStatements := budgeted.within (eq_false_of_ne_true aborts)
    omega
  · intro aborts
    exact budgeted.beyond aborts

/-- What is recorded for a send: its statements, as long as they fit the word. -/
theorem last_statements (hN : e.settings.maxStatements < UInt64.size - 1) :
    (e.send send).2.statistics.last.statements.toNat =
      ((e.start send).run e.environment).session.statements := by
  have h := e.statements_le send hn
  have fits : ((e.start send).run e.environment).session.statements < UInt64.size := by omega
  exact UInt64.toNat_ofNat_of_lt' fits

/-- The growth of the counter of handlers, as long as it fits the word. -/
theorem messages_growth (hN : e.settings.maxStatements < UInt64.size - 1) :
    ((e.send send).2.statistics.messages - e.statistics.messages).toNat =
      (e.states send).countP Machine.begins := by
  have h : (e.send send).2.statistics.messages =
      e.statistics.messages + UInt64.ofNat ((e.states send).countP Machine.begins) :=
    Machine.messages_run e.environment hn (e.start send)
  have executed := e.executed_le send hn
  have begins : (e.states send).countP Machine.begins ≤
      1 + (e.states send).countP (Machine.executes e.environment) :=
    Machine.begins_run e.environment (e.start send)
  have fits : (e.states send).countP Machine.begins < UInt64.size := by omega
  rw [h, UInt64.add_comm, UInt64.add_sub_cancel]
  exact UInt64.toNat_ofNat_of_lt' fits

end

/-- **A top-level send ends, and keeps to its budget.**  It is over after a number of steps that
depends on the budget alone.  It executes no more statements than the budget allows.  The statements
that are recorded for it are one more than that at most, and they are one more exactly if the send
fails for its budget; then there is a state at which the statement too many was counted, and it
changed neither the execution that it was counted for nor the objects, the classes and the queue,
and nothing after it did.  At most one handler more runs than statements are executed, and the
counter of handlers counts them. -/
theorem send_within_budget (e : Engine) (send : Send) (hn : e.natives.IsStandard)
    (hN : e.settings.maxStatements < UInt64.size - 1) :
    let N := e.settings.maxStatements
    let executed := (e.states send).countP (Machine.executes e.environment)
    let handlers := (e.states send).countP Machine.begins
    let result := (e.send send).1
    let after := (e.send send).2
    (∃ n ≤ 6 * (N + 1) + 5, ∃ m, (Machine.step e.environment)^[n] (e.start send) = m ∧
      m.control.isHalted = true ∧
      e.send send = (m.result, e.endSend send e.beginSend.1 m.session)) ∧
    executed ≤ N ∧
    after.statistics.last.statements.toNat ≤ N + 1 ∧
    (after.statistics.last.statements.toNat = N + 1 ↔ result = .error (.statementBudget N)) ∧
    (result = .error (.statementBudget N) →
      ∃ m ∈ e.states send, ∃ x, m.control = .execute x ∧ x.cursor.atEnd = false ∧
        m.session.statements = N ∧
        m.step e.environment = { m.counted with control := .abandon x (.statementBudget N) } ∧
        after.world.objects = m.session.world.objects ∧
        after.world.classes = m.session.world.classes ∧
        after.world.posts = m.session.world.posts) ∧
    (after.statistics.messages - e.statistics.messages).toNat = handlers ∧
    handlers ≤ 1 + executed := by
  intro N executed handlers result after
  refine ⟨?_, e.executed_le send hn, ?_, ?_, ?_, e.messages_growth send hn hN,
    Machine.begins_run e.environment (e.start send)⟩
  · obtain ⟨n, hn, run⟩ := Machine.exists_iterate_eq_run e.environment (e.start send)
    exact ⟨n, hn, _, run, Machine.isHalted_run _ _, e.send_eq send⟩
  · rw [e.last_statements send hn hN]
    exact e.statements_le send hn
  · rw [e.last_statements send hn hN]
    exact e.statements_eq_succ_iff send hn
  · intro fails
    have aborts := (e.result_eq_statementBudget_iff send hn).mp fails
    obtain ⟨m, hm, x, control, code, budget, step, idle⟩ :=
      Machine.exists_overrun e.environment hn (e.start send) rfl aborts
    have within : m.session.statements ≤ N :=
      (e.budgeted_of_mem send hn hm).within (by rw [control]; rfl)
    exact ⟨m, hm, x, control, code, Nat.le_antisymm within budget, step, idle.objects, idle.classes,
      idle.posts⟩

/-- An engine with one object, whose handler for message 1 goes to its own beginning for ever. -/
def circling (budget : Nat) : Engine :=
  ofBody { maxStatements := budget } [] #[0, 0, 0x40, 2, 0, 0, 0]

theorem send_within_budget_circling :
    (circling 3).natives.IsStandard ∧ (circling 3).settings.maxStatements < UInt64.size - 1 ∧
      ((circling 3).send ⟨⟨0⟩, ⟨1⟩, []⟩).1 = .error (.statementBudget 3) ∧
      ((circling 3).send ⟨⟨0⟩, ⟨1⟩, []⟩).2.statistics.last.statements.toNat = 4 := by
  have fails : ((circling 3).send ⟨⟨0⟩, ⟨1⟩, []⟩).1 = .error (.statementBudget 3) := by
    rw [send_eq, Machine.run_eq_iterate _ 9 _ rfl]
    rfl
  obtain ⟨-, -, -, recorded, -⟩ := send_within_budget (circling 3) ⟨⟨0⟩, ⟨1⟩, []⟩
    NativeTable.isStandard_standard (by decide)
  exact ⟨NativeTable.isStandard_standard, by decide, fails, recorded.mpr fails⟩

end Engine

end MessageMachine
