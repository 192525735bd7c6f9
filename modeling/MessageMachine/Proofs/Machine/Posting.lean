import MessageMachine.Proofs.Machine.Budget
import MessageMachine.Proofs.Statement.Invocation

/-!
# Posts of a run

A run does nothing to the queue of posts except through the native functions that its statements
run.  `Machine.postEvent?` says what the next statement tells of a post, and `Machine.ledger`
collects what all statements of a run tell, in order.  The ledger is true (`Machine.undergoes_run`).

Between statements the machine checks sends, finds handlers and delivers answers.  None of
this touches the queue, so a step takes the event of its statement, if there is one, and
nothing else (`Transition.takes_postEvent?`).
-/

namespace MessageMachine

namespace Machine

/-- The native function that the next step runs, if it runs one. -/
def invocation? (env : Environment) (m : Machine) : Option Invocation :=
  match m.control with
  | .execute e =>
    if m.executes env then
      Action.invocation? (m.scope env (m.session.statements + 1)) (m.session.moment e)
    else none
  | _ => none

/-- What the next step tells of a post. -/
def postEvent? (env : Environment) (m : Machine) : Option PostEvent :=
  (m.invocation? env).bind Invocation.postEvent?

/-- What the run from a state tells of posts. -/
def ledger (env : Environment) (m : Machine) : Ledger := (m.trace env).filterMap (postEvent? env)

variable {env : Environment}

theorem invocation?_of_execute {m : Machine} {e : Execution} (control : m.control = .execute e)
    (code : e.cursor.atEnd = false) (budget : m.session.statements < env.settings.maxStatements) :
    m.invocation? env =
      Action.invocation? (m.scope env (m.session.statements + 1)) (m.session.moment e) := by
  have executes := executes_of_execute control code budget
  unfold invocation?
  rw [control]
  dsimp only
  rw [executes, if_pos rfl]

/-- Only a step that executes a statement tells of a post. -/
theorem postEvent?_of_not_executes {m : Machine} (h : m.executes env = false) :
    m.postEvent? env = none := by
  have none : m.invocation? env = none := by
    unfold invocation?
    split
    · rw [h, if_neg Bool.false_ne_true]
    · rfl
  rw [postEvent?, none, Option.bind_none]

/-- A statement takes what it tells of a post. -/
theorem takes_statement (hn : env.natives.IsStandard) {m : Machine} {e : Execution}
    {x : Except Fault Next} {moment : Moment} (control : m.control = .execute e)
    (code : e.cursor.atEnd = false) (budget : m.session.statements < env.settings.maxStatements)
    (outcome : Action.statement (m.scope env (m.session.statements + 1)) (m.session.moment e) =
      (x, moment)) :
    m.session.world.posts.Takes (m.postEvent? env) moment.world.posts := by
  obtain ⟨runs, idles⟩ :=
    Action.posts_statement (m.scope env (m.session.statements + 1)) (m.session.moment e)
  rw [outcome] at runs idles
  rw [postEvent?, invocation?_of_execute control code budget]
  cases found :
    Action.invocation? (m.scope env (m.session.statements + 1)) (m.session.moment e) with
  | none => exact idles found
  | some i =>
    obtain ⟨before, after⟩ := runs i found
    have takes := Invocation.takes_postEvent? (Action.isStandard_of_invocation? hn found)
    rw [before, ← show moment.world.posts = i.after.posts from after] at takes
    exact takes

end Machine

/-- **A step takes what it tells of a post**, and does nothing else to the queue. -/
theorem Transition.takes_postEvent? {env : Environment} {m m' : Machine}
    (hn : env.natives.IsStandard) (t : Transition env m m') :
    m.session.world.posts.Takes (m.postEvent? env) m'.session.world.posts := by
  have quiet (executes : m.executes env = false)
      (same : m'.session.world.posts = m.session.world.posts) :
      m.session.world.posts.Takes (m.postEvent? env) m'.session.world.posts := by
    rw [Machine.postEvent?_of_not_executes executes]
    exact same
  -- a sender goes on with what it has seen
  have resumed {r : Except Fault Value} {c : Caller} {value : Value} {x : Except Fault Unit}
      {moment : Moment} (outcome : Action.assignIf c.destination value
        ((m.session.forgive c r).moment c.execution) = (x, moment)) :
      moment.world.posts = m.session.world.posts :=
    ((Action.Steadily.assignIf _ _).of_run outcome).1.posts.trans
      (Session.Idle.forgive m.session c r).posts
  cases t with
  | reject control | miss control =>
    exact quiet (by rw [Machine.executes, control]) (Machine.idle_refuse _ _).posts
  | accept control | begin control | exhaust control | halt control | abort control =>
    exact quiet (by rw [Machine.executes, control]) rfl
  | runOff control code => exact quiet (Machine.executes_of_atEnd env control code) rfl
  | overrun control code budget => exact quiet (Machine.executes_of_overrun control budget) rfl
  | fail control code budget outcome | proceed control code budget outcome
  | await control code budget outcome =>
    exact Machine.takes_statement hn control code budget outcome
  | finish control code budget outcome =>
    rw [(Machine.idle_leave env _ _ _).posts]
    exact Machine.takes_statement hn control code budget outcome
  | abandon control =>
    exact quiet (by rw [Machine.executes, control]) (Machine.idle_abandon env _ _ _).posts
  | resume control _ _ outcome | misfit control _ _ outcome =>
    exact quiet (by rw [Machine.executes, control]) (resumed outcome)

namespace Machine

variable (env : Environment)

theorem takes_step (hn : env.natives.IsStandard) (m : Machine) :
    m.session.world.posts.Takes (m.postEvent? env) (m.step env).session.world.posts := by
  cases hm : m.control.isHalted with
  | true =>
    rw [postEvent?_of_not_executes (executes_of_halted env hm).1, step_of_halted env hm]
    rfl
  | false => exact (transition_step env m hm).takes_postEvent? hn

/-- The next step tells of a post when it runs `PostMessage`: a reply of one says that the post was
accepted, and a reply of zero that it was refused. -/
theorem postEvent?_eq_some_iff (hn : env.natives.IsStandard) (m : Machine) (x : PostEvent) :
    m.postEvent? env = some x ↔
      ∃ i post, m.invocation? env = some i ∧ i.native.run = Native.postMessage.run ∧
        i.call.send = .ok post ∧
          (i.reply = .value (.int 1) ∧ x = .accepted post ∨
            i.reply = .value (.int 0) ∧ x = .refused post) := by
  have standard {i : Invocation} (h : m.invocation? env = some i) : i.native.IsStandard := by
    unfold invocation? at h
    split at h
    · split at h
      · exact Action.isStandard_of_invocation? hn h
      · cases h
    · cases h
  unfold postEvent?
  rw [Option.bind_eq_some_iff]
  constructor
  · rintro ⟨i, found, event⟩
    obtain ⟨posts, post, send, told⟩ := (i.postEvent?_eq_some_iff (standard found) x).mp event
    exact ⟨i, post, found, posts, send, told⟩
  · rintro ⟨i, post, found, posts, send, told⟩
    exact ⟨i, found, (i.postEvent?_eq_some_iff (standard found) x).mpr ⟨posts, post, send, told⟩⟩

theorem ledger_of_running {m : Machine} (h : m.control.isHalted = false) :
    m.ledger env = (m.postEvent? env).toList ++ (m.step env).ledger env := by
  unfold ledger
  rw [trace_of_running env h]
  cases event : m.postEvent? env with
  | none => rw [List.filterMap_cons_none event]; rfl
  | some x => rw [List.filterMap_cons_some event]; rfl

/-- **The ledger of a run is true.** -/
theorem undergoes_run (hn : env.natives.IsStandard) (m : Machine) :
    m.session.world.posts.Undergoes (m.ledger env) (m.run env).session.world.posts := by
  induction m using run_induction env with
  | halted m hm =>
    have none : m.ledger env = [] := by
      rw [ledger, trace_of_halted env hm, List.filterMap_cons_none
        (postEvent?_of_not_executes (executes_of_halted env hm).1), List.filterMap_nil]
    rw [none, run_of_halted env hm]
    exact .refl _
  | running m hm ih =>
    rw [run_step] at ih
    rw [ledger_of_running env hm]
    exact (PostQueue.Undergoes.of_takes (m.takes_step env hn)).trans ih

/-- A run delivers no post. -/
theorem delivered_ledger (m : Machine) : (m.ledger env).delivered = [] := by
  refine List.filterMap_eq_nil_iff.mpr fun x hx => ?_
  obtain ⟨s, -, event⟩ := List.mem_filterMap.mp hx
  obtain ⟨i, -, event⟩ := Option.bind_eq_some_iff.mp event
  exact Invocation.delivered?_of_postEvent? event

end Machine

end MessageMachine
