import MessageMachine.Proofs.Tally
import MessageMachine.Proofs.Machine.Clock
import MessageMachine.Proofs.Machine.Nesting
import MessageMachine.Proofs.Machine.Posting

/-!
# What a run counts

`Machine.counts` says what the next step counts: a handler that begins, the call of a native
function, the time of a handler that ends.  `Machine.tally` is what all steps of a run count, and
the statistics after the run are those before with just that counted (`Machine.counts_run`),
whichever way its handlers end.

Every handler that begins is at work or waits until it ends, and when the run is over none is left.
So if times are kept, as many are kept as handlers have begun (`Machine.times_tally`).
-/

namespace MessageMachine

/-- The time that is kept of a handler that ends. -/
def Handling.time (h : Handling) (now : UInt64) : Count :=
  .time h.cls h.send.message (Clock.elapsed h.started now)

namespace Machine

/-- The native slot that the next step calls. -/
def slot? (env : Environment) (m : Machine) : Option UInt8 :=
  match m.control with
  | .execute e =>
    if m.executes env then
      Action.slot? (m.scope env (m.session.statements + 1)) (m.session.moment e)
    else none
  | _ => none

/-- The handler that ends with the next step. -/
def ending? (env : Environment) (m : Machine) : Option Handling :=
  match m.control with
  | .execute e =>
    if m.executes env then
      match (Action.statement (m.scope env (m.session.statements + 1)) (m.session.moment e)).1 with
      | .ok (.leave _) => e.role
      | _ => none
    else none
  | .abandon e _ => e.role
  | _ => none

/-- The times that the next step keeps. -/
def timesKept (env : Environment) (m : Machine) : Tally :=
  if env.settings.profile then
    (m.ending? env).toList.map fun h => h.time m.session.world.clock.now
  else []

/-- What the next step counts. -/
def counts (env : Environment) (m : Machine) : Tally :=
  (if m.begins then [.handler (m.callers.depth + 1)] else []) ++
    (m.slot? env).toList.map .native ++ m.timesKept env

/-- What the run from a state counts. -/
def tally (env : Environment) (m : Machine) : Tally := (m.trace env).flatMap (counts env)

variable {env : Environment} {m : Machine}

/-- A step that begins, calls and ends nothing counts nothing. -/
theorem counts_of_idle (begins : m.begins = false) (slot : m.slot? env = none)
    (ending : m.ending? env = none) : m.counts env = [] := by
  unfold counts timesKept
  rw [begins, slot, ending]
  cases env.settings.profile <;> rfl

/-- What a step counts that executes no statement and ends no execution. -/
theorem counts_of_control (begins : m.begins = false)
    (control : m.control.execution? = none) : m.counts env = [] := by
  refine counts_of_idle begins ?_ ?_
  · unfold slot?
    split
    · rename_i e executes
      rw [executes] at control
      cases control
    · rfl
  · unfold ending?
    split
    · rename_i e executes
      rw [executes] at control
      cases control
    · rename_i e f abandons
      rw [abandons] at control
      cases control
    · rfl

theorem ending?_of_not_executes {e : Execution} (control : m.control = .execute e)
    (executes : m.executes env = false) : m.ending? env = none := by
  unfold ending?
  rw [control]
  dsimp only
  rw [executes, if_neg Bool.false_ne_true]

/-- What a step counts at which the next statement is not executed. -/
theorem counts_of_not_executes {e : Execution} (control : m.control = .execute e)
    (executes : m.executes env = false) : m.counts env = [] := by
  refine counts_of_idle (by rw [Machine.begins, control]) ?_
    (ending?_of_not_executes control executes)
  unfold slot?
  rw [control]
  dsimp only
  rw [executes, if_neg Bool.false_ne_true]

/-- What a step counts with which a handler begins. -/
theorem counts_of_begins {send : Send} {start : ClassId} {again : Bool}
    (control : m.control = .seek send start again) (begins : m.begins = true) :
    m.counts env = [.handler (m.callers.depth + 1)] := by
  have slot : m.slot? env = none := by
    rw [slot?, control]
  have ending : m.ending? env = none := by
    rw [ending?, control]
  unfold counts timesKept
  rw [begins, slot, ending]
  cases env.settings.profile <;> rfl

/-- The handler whose statement ends it. -/
theorem ending?_of_executes {e : Execution} (control : m.control = .execute e)
    (executes : m.executes env = true) :
    m.ending? env =
      match (Action.statement (m.scope env (m.session.statements + 1)) (m.session.moment e)).1 with
      | .ok (.leave _) => e.role
      | _ => none := by
  unfold ending?
  rw [control]
  dsimp only
  rw [executes, if_pos rfl]

/-- What a step counts that executes a statement. -/
theorem counts_of_executes {e : Execution} (control : m.control = .execute e)
    (executes : m.executes env = true) :
    m.counts env =
      (Action.slot? (m.scope env (m.session.statements + 1))
        (m.session.moment e)).toList.map .native ++
        m.timesKept env := by
  have begins : m.begins = false := by
    rw [Machine.begins, control]
  have slot : m.slot? env =
      Action.slot? (m.scope env (m.session.statements + 1)) (m.session.moment e) := by
    unfold slot?
    rw [control]
    dsimp only
    rw [executes, if_pos rfl]
  rw [counts, begins, slot]
  rfl

theorem total_timesKept_nativeCalls (env : Environment) (m : Machine) :
    (m.timesKept env).total .nativeCalls = 0 := by
  unfold timesKept
  cases env.settings.profile with
  | false => rfl
  | true => cases m.ending? env <;> rfl

end Machine

/-! ## One step -/

/-- A statement counts the call of the native function that it runs. -/
theorem Action.counts_statement (scope : Scope) (m : Moment) :
    (statement scope m).2.statistics =
        m.statistics.countAll ((slot? scope m).toList.map .native) ∧
      (statement scope m).2.nativeCalls = m.nativeCalls + (slot? scope m).toList.length := by
  rcases invocation?_cases scope m with ⟨-, none, steady⟩ |
    ⟨index, i, before, -, found, steady, -, after⟩
  · rw [none]
    exact ⟨steady.statistics, steady.nativeCalls⟩
  · rw [found, after.statistics, after.nativeCalls]
    refine ⟨?_, congrArg (· + 1) steady.nativeCalls⟩
    show before.statistics.countNative index = m.statistics.countNative index
    rw [steady.statistics]

namespace Machine

/-- When a handler ends, its time is kept, if the settings ask for it. -/
theorem statistics_leave (env : Environment) (m : Machine) (e : Execution)
    (result : Except Fault Ending) :
    (m.leave env e result).session.statistics =
      m.session.statistics.countAll
        (if env.settings.profile then
          e.role.toList.map fun h => h.time m.session.world.clock.now else []) := by
  cases role : e.role with
  | none =>
    rw [leave_alone env m role]
    cases env.settings.profile <;> rfl
  | some h =>
    rw [leave_handler env m role]
    show (keepTime env m.session h).statistics = _
    unfold keepTime
    cases env.settings.profile <;> rfl

theorem statistics_report (s : Session) (stack : List Activation) (f : Fault) :
    (s.report stack f).statistics = s.statistics := by
  unfold Session.report
  split <;> rfl

theorem statistics_forgive (s : Session) (c : Caller) (r : Except Fault Value) :
    (s.forgive c r).statistics = s.statistics := by
  unfold Session.forgive
  split
  · rfl
  · split <;> rfl

end Machine

/-- An execution that goes on is of the same handler. -/
theorem Execution.Continues.time_eq {e e' : Execution} (h : e.Continues e') (now : UInt64) :
    (e'.role.toList.map fun h => h.time now) = e.role.toList.map fun h => h.time now := by
  cases role : e.role with
  | none =>
    have none := h.isSome_role
    cases role' : e'.role with
    | none => rfl
    | some x =>
      rw [role, role'] at none
      cases none
  | some x =>
    obtain ⟨line, role'⟩ := h.exists_line role
    rw [role']
    rfl

/-- **A step counts what its tally says**, and nothing else. -/
theorem Transition.counts {env : Environment} (hn : env.natives.IsStandard) {m m' : Machine}
    (t : Transition env m m') :
    m'.session.statistics = m.session.statistics.countAll (m.counts env) ∧
      m'.session.nativeCalls = m.session.nativeCalls + (m.counts env).total .nativeCalls := by
  have quiet (counts : m.counts env = [])
      (statistics : m'.session.statistics = m.session.statistics)
      (nativeCalls : m'.session.nativeCalls = m.session.nativeCalls) :
      m'.session.statistics = m.session.statistics.countAll (m.counts env) ∧
        m'.session.nativeCalls = m.session.nativeCalls + (m.counts env).total .nativeCalls := by
    rw [counts]
    exact ⟨statistics, nativeCalls⟩
  -- a statement is executed, which may call a native function and may end a handler
  have executed {e : Execution} {x : Except Fault Next} {moment : Moment}
      (control : m.control = .execute e) (code : e.cursor.atEnd = false)
      (budget : m.session.statements < env.settings.maxStatements)
      (outcome : Action.statement (m.scope env (m.session.statements + 1)) (m.session.moment e) =
        (x, moment))
      (statistics : m'.session.statistics = moment.statistics.countAll (m.timesKept env))
      (nativeCalls : m'.session.nativeCalls = moment.nativeCalls) :
      m'.session.statistics = m.session.statistics.countAll (m.counts env) ∧
        m'.session.nativeCalls = m.session.nativeCalls + (m.counts env).total .nativeCalls := by
    have called := Action.counts_statement (m.scope env (m.session.statements + 1))
      (m.session.moment e)
    rw [outcome] at called
    rw [Machine.counts_of_executes control (Machine.executes_of_execute control code budget),
      Statistics.countAll_append, Tally.total_append, Machine.total_timesKept_nativeCalls,
      Tally.total_native, statistics, nativeCalls]
    exact ⟨congrArg (Statistics.countAll · _) called.1, called.2⟩
  -- it ends no handler
  have goesOn {e : Execution} {x : Except Fault Next} {moment : Moment}
      (control : m.control = .execute e) (code : e.cursor.atEnd = false)
      (budget : m.session.statements < env.settings.maxStatements)
      (outcome : Action.statement (m.scope env (m.session.statements + 1)) (m.session.moment e) =
        (x, moment)) (stays : ∀ ending, x ≠ .ok (.leave ending)) : m.timesKept env = [] := by
    have ending := Machine.ending?_of_executes control
      (Machine.executes_of_execute control code budget)
    rw [outcome] at ending
    have none : m.ending? env = none := by
      rw [ending]
      split
      · rename_i ending same
        exact absurd same (stays ending)
      · rfl
    rw [Machine.timesKept, none]
    split <;> rfl
  -- a sender goes on with what it has seen
  have resumed {r : Except Fault Value} {c : Caller} {value : Value} {x : Except Fault Unit}
      {moment : Moment} (control : m.control = .answer r)
      (outcome : Action.assignIf c.destination value
        ((m.session.forgive c r).moment c.execution) = (x, moment))
      (statistics : m'.session.statistics = moment.statistics)
      (nativeCalls : m'.session.nativeCalls = moment.nativeCalls) :
      m'.session.statistics = m.session.statistics.countAll (m.counts env) ∧
        m'.session.nativeCalls = m.session.nativeCalls + (m.counts env).total .nativeCalls := by
    have steady := ((Action.Steadily.assignIf _ _).of_run outcome).1
    exact quiet (Machine.counts_of_control (by rw [Machine.begins, control]) (by rw [control]; rfl))
      (statistics.trans (steady.statistics.trans (Machine.statistics_forgive _ c r)))
      (nativeCalls.trans (steady.nativeCalls.trans (Session.Idle.forgive _ c r).nativeCalls))
  cases t with
  | reject control =>
    exact quiet (Machine.counts_of_control (by rw [Machine.begins, control]) (by rw [control]; rfl))
      (Machine.statistics_report _ _ _) (Machine.idle_refuse _ _).nativeCalls
  | accept control | halt control =>
    exact quiet (Machine.counts_of_control (by rw [Machine.begins, control]) (by rw [control]; rfl))
      rfl rfl
  | begin control found =>
    rw [Machine.counts_of_begins control (by rw [Machine.begins_of_seek control, found]; rfl)]
    exact ⟨rfl, rfl⟩
  | miss control missing =>
    refine quiet (Machine.counts_of_control ?_ (by rw [control]; rfl))
      (Machine.statistics_report _ _ _) (Machine.idle_refuse _ _).nativeCalls
    rw [Machine.begins_of_seek control, missing]
    rfl
  | exhaust control missing =>
    refine quiet (Machine.counts_of_control ?_ (by rw [control]; rfl)) rfl rfl
    rw [Machine.begins_of_seek control, missing]
    rfl
  | runOff control code =>
    have executes := Machine.executes_of_atEnd env control code
    exact quiet (Machine.counts_of_not_executes control executes) rfl rfl
  | overrun control code budget =>
    have executes := Machine.executes_of_overrun control budget
    exact quiet (Machine.counts_of_not_executes control executes) rfl rfl
  | fail control code budget outcome | proceed control code budget outcome
  | await control code budget outcome =>
    refine executed control code budget outcome ?_ rfl
    rw [goesOn control code budget outcome fun _ h => by cases h]
    rfl
  | @finish e ending moment control code budget outcome =>
    refine executed control code budget outcome ?_ (Machine.idle_leave env _ _ _).nativeCalls
    have follows := ((Action.Tame.statement _ hn).of_run outcome).1
    rw [Machine.statistics_leave, Machine.timesKept, Machine.ending?_of_executes control
      (Machine.executes_of_execute control code budget), outcome]
    dsimp only
    have clock : (m.counted.session.after moment).world.clock = m.session.world.clock :=
      follows.clock
    rw [follows.execution.time_eq, clock]
    rfl
  | @abandon e f control =>
    have ending : m.ending? env = e.role := by
      rw [Machine.ending?, control]
    have counts : m.counts env = m.timesKept env := by
      rw [Machine.counts, show m.begins = false by rw [Machine.begins, control],
        show m.slot? env = none by rw [Machine.slot?, control]]
      rfl
    rw [counts, Machine.total_timesKept_nativeCalls, Machine.timesKept, ending]
    refine ⟨?_, (Machine.idle_abandon env m e f).nativeCalls⟩
    rw [Machine.abandon, Machine.statistics_leave]
    dsimp only
    rw [Machine.statistics_report, Machine.clock_report]
  | resume control _ _ outcome | misfit control _ _ outcome =>
    exact resumed control outcome rfl rfl
  | abort control =>
    exact quiet (Machine.counts_of_control (by rw [Machine.begins, control]) (by rw [control]; rfl))
      rfl rfl

/-! ## Handlers that are active -/

theorem Machine.length_active (m : Machine) :
    m.active.length = m.control.execution?.toList.length + m.callers.list.length := by
  rw [active, List.length_append, List.length_map]

/-- The execution at work is a handler, if all are that are active. -/
theorem Machine.exists_role {m : Machine} (handlers : ∀ x ∈ m.active, x.role.isSome = true)
    {e : Execution} (work : m.control.execution? = some e) : ∃ h, e.role = some h :=
  Option.isSome_iff_exists.mp (handlers e (mem_active_of_work work))

namespace Transition

variable {env : Environment} {m m' : Machine}

/-- **Each handler that begins is active until it ends.** -/
theorem active_add (t : Transition env m m')
    (handlers : ∀ x ∈ m.active, x.role.isSome = true) :
    m'.active.length + (m.ending? env).toList.length = m.active.length + m.begins.toNat := by
  rw [Machine.length_active, Machine.length_active]
  have leaves {e : Execution} (work : m.control.execution? = some e) (begins : m.begins = false)
      (ending : m.ending? env = e.role) (idle : m'.control.execution? = none)
      (callers : m'.callers = m.callers) :
      m'.control.execution?.toList.length + m'.callers.list.length +
          (m.ending? env).toList.length =
        m.control.execution?.toList.length + m.callers.list.length + m.begins.toNat := by
    obtain ⟨h, role⟩ := Machine.exists_role handlers work
    rw [work, begins, ending, role, idle, callers]
    show 0 + m.callers.list.length + 1 = 1 + m.callers.list.length + 0
    omega
  have popped {c : Caller} {callers : Callers} (pop : m.callers.pop? = some (c, callers)) :
      m.callers.list.length = callers.list.length + 1 := by
    rw [Callers.list_of_pop? pop]
    rfl
  cases t with
  | reject control | accept control | halt control =>
    rw [Machine.ending?, Machine.begins, control]
    rfl
  | begin control found =>
    have ending : m.ending? env = none := by rw [Machine.ending?, control]
    rw [Machine.begins_of_seek control, found, ending, control]
    show 1 + m.callers.list.length + 0 = 0 + m.callers.list.length + 1
    omega
  | miss control missing | exhaust control missing =>
    rw [Machine.begins_of_seek control, missing, Machine.ending?, control]
    rfl
  | runOff control code =>
    have executes := Machine.executes_of_atEnd env control code
    rw [Machine.ending?_of_not_executes control executes, Machine.begins, control]
    rfl
  | overrun control code budget =>
    have executes := Machine.executes_of_overrun control budget
    rw [Machine.ending?_of_not_executes control executes, Machine.begins, control]
    rfl
  | fail control code budget outcome | proceed control code budget outcome =>
    rw [Machine.ending?_of_executes control (Machine.executes_of_execute control code budget),
      outcome, Machine.begins, control]
    rfl
  | await control code budget outcome =>
    rw [Machine.ending?_of_executes control (Machine.executes_of_execute control code budget),
      outcome, Machine.begins, control, Callers.list_push]
    show 0 + (m.callers.list.length + 1) + 0 = 1 + m.callers.list.length + 0
    omega
  | finish control code budget outcome =>
    refine leaves (by rw [control]; rfl) (by rw [Machine.begins, control]) ?_
      (Machine.execution?_leave env _ _ _) (Machine.callers_leave env _ _ _)
    rw [Machine.ending?_of_executes control (Machine.executes_of_execute control code budget),
      outcome]
  | abandon control =>
    exact leaves (by rw [control]; rfl) (by rw [Machine.begins, control])
      (by rw [Machine.ending?, control]) (Machine.execution?_leave env _ _ _)
      (Machine.callers_leave env _ _ _)
  | @resume _ _ callers _ _ control pop | @misfit _ _ callers _ _ _ control pop
  | @abort _ _ callers control pop =>
    have ending : m.ending? env = none := by rw [Machine.ending?, control]
    rw [ending, Machine.begins, control, popped pop]
    show 1 + callers.list.length + 0 = 0 + (callers.list.length + 1) + 0
    omega

/-- When a send from the top has been answered, no handler is left. -/
theorem active_of_halted (t : Transition env m m')
    (handlers : ∀ x ∈ m.active, x.role.isSome = true) (halted : m'.control.isHalted = true) :
    m'.active = [] := by
  have leaves {s : Machine} {e x : Execution} {result : Except Fault Ending}
      (work : m.control.execution? = some e) (continues : e.Continues x)
      (halted : (s.leave env x result).control.isHalted = true) : False := by
    obtain ⟨h, role⟩ := Machine.exists_role handlers work
    obtain ⟨line, role'⟩ := continues.exists_line role
    rw [Machine.leave_handler env s role'] at halted
    dsimp only at halted
    rcases Handling.followUp_cases { h with line } result with
      ⟨f, -, e⟩ | ⟨_, v, -, e⟩ | ⟨parent, -, e⟩
    all_goals
      rw [e] at halted
      cases halted
  cases t with
  | halt control top =>
    show [] ++ m.callers.list.map _ = []
    rw [Callers.list_of_pop?_none top]
    rfl
  | finish control _ _ outcome =>
    exact (leaves (by rw [control]; rfl) (Action.continues_statement outcome) halted).elim
  | abandon control => exact (leaves (by rw [control]; rfl) (.refl _) halted).elim
  | reject | accept | begin | miss | exhaust | runOff | overrun | fail | proceed | await | resume
  | misfit | abort => cases halted

end Transition

/-! ## Whole runs -/

namespace Machine

variable (env : Environment)

theorem counts_of_halted {m : Machine} (h : m.control.isHalted = true) : m.counts env = [] := by
  cases control : m.control with
  | halted r e => exact counts_of_control (by rw [begins, control]) (by rw [control]; rfl)
  | _ =>
    rw [control] at h
    cases h

theorem tally_of_halted {m : Machine} (h : m.control.isHalted = true) : m.tally env = [] := by
  rw [tally, trace_of_halted env h, List.flatMap_cons, counts_of_halted env h, List.flatMap_nil,
    List.append_nil]

theorem tally_of_running {m : Machine} (h : m.control.isHalted = false) :
    m.tally env = m.counts env ++ (m.step env).tally env := by
  rw [tally, trace_of_running env h, List.flatMap_cons, tally]

/-- The tally of a run that is over after so many steps. -/
theorem tally_eq_iterate (n : Nat) (m : Machine) (h : ((step env)^[n] m).control.isHalted = true) :
    m.tally env = (List.range n).flatMap fun k => counts env ((step env)^[k] m) := by
  induction n generalizing m with
  | zero => exact tally_of_halted env h
  | succ n ih =>
    have later := ih (m.step env) h
    rw [List.range_succ_eq_map, List.flatMap_cons, List.flatMap_map]
    cases hm : m.control.isHalted with
    | true =>
      rw [step_of_halted env hm, tally_of_halted env hm] at later
      rw [tally_of_halted env hm]
      refine (List.append_eq_nil_iff.mpr ⟨counts_of_halted env hm, ?_⟩).symm
      rw [later]
      refine List.flatMap_congr fun k _ => ?_
      rw [Function.iterate_succ_apply, step_of_halted env hm]
    | false =>
      rw [tally_of_running env hm, later]
      rfl

variable {env : Environment}

/-- **A run counts what its tally says**, and nothing else. -/
theorem counts_run (hn : env.natives.IsStandard) (m : Machine) :
    (m.run env).session.statistics = m.session.statistics.countAll (m.tally env) ∧
      (m.run env).session.nativeCalls =
        m.session.nativeCalls + (m.tally env).total .nativeCalls := by
  induction m using run_induction env with
  | halted m hm =>
    rw [run_of_halted env hm, tally_of_halted env hm]
    exact ⟨rfl, rfl⟩
  | running m hm ih =>
    obtain ⟨statistics, nativeCalls⟩ := (transition_step env m hm).counts hn
    rw [← run_step, ih.1, ih.2, tally_of_running env hm, statistics, nativeCalls,
      Statistics.countAll_append, Tally.total_append, Nat.add_assoc]
    exact ⟨rfl, rfl⟩

/-- What a step counts begins or ends no send from the top. -/
theorem isOuter_of_mem_counts {m : Machine} {c : Count} (h : c ∈ m.counts env) :
    c.isOuter = false := by
  unfold counts at h
  rcases List.mem_append.mp h with h | h
  · rcases List.mem_append.mp h with h | h
    · split at h
      · rw [List.mem_singleton.mp h]
        rfl
      · cases h
    · obtain ⟨slot, -, rfl⟩ := List.mem_map.mp h
      rfl
  · unfold timesKept at h
    split at h
    · obtain ⟨x, -, rfl⟩ := List.mem_map.mp h
      rfl
    · cases h

theorem isOuter_of_mem_tally {m : Machine} {c : Count} (h : c ∈ m.tally env) :
    c.isOuter = false := by
  obtain ⟨s, -, hc⟩ := List.mem_flatMap.mp h
  exact isOuter_of_mem_counts hc

/-- The handlers that begin with a step. -/
theorem total_messages_counts (env : Environment) (m : Machine) :
    (m.counts env).total .messages = m.begins.toNat := by
  have slots (slots : List UInt8) : Tally.total (slots.map .native) .messages = 0 := by
    induction slots with
    | nil => rfl
    | cons slot slots ih => exact (Nat.zero_add _).trans ih
  have times : (m.timesKept env).total .messages = 0 := by
    unfold timesKept
    cases env.settings.profile with
    | false => rfl
    | true => cases m.ending? env <;> rfl
  rw [counts, Tally.total_append, Tally.total_append, slots, times]
  cases m.begins <;> rfl

/-- The times that are kept at a step, if times are kept. -/
theorem times_counts (profile : env.settings.profile = true) (m : Machine) :
    (m.counts env).times = (m.ending? env).toList.length := by
  have begins : Tally.times (if m.begins then [.handler (m.callers.depth + 1)] else []) = 0 := by
    cases m.begins <;> rfl
  have slots : Tally.times ((m.slot? env).toList.map .native) = 0 := by
    cases m.slot? env <;> rfl
  rw [counts, Tally.times_append, Tally.times_append, begins, slots, timesKept, if_pos profile]
  cases m.ending? env <;> rfl

/-- **Every handler that begins has its time kept**, if times are kept, and however it ends. -/
theorem times_tally (profile : env.settings.profile = true) (m : Machine)
    (handlers : ∀ x ∈ m.active, x.role.isSome = true)
    (ended : m.control.isHalted = true → m.active = []) :
    (m.tally env).times = m.active.length + (m.tally env).total .messages := by
  induction m using run_induction env with
  | halted m hm =>
    rw [tally_of_halted env hm, ended hm]
    rfl
  | running m hm ih =>
    have t := transition_step env m hm
    have later := ih (t.handlers handlers) (t.active_of_halted handlers)
    have first := t.active_add handlers
    rw [tally_of_running env hm, Tally.times_append, Tally.total_append, times_counts profile,
      total_messages_counts, later]
    omega

end Machine

end MessageMachine
