import Mathlib.Data.List.Forall2
import MessageMachine.Proofs.Machine.Nesting
import MessageMachine.Proofs.Statement.Lockstep

/-!
# Machines in lockstep

Two machines that run under the same limits and with the same natives, in worlds that no run can
tell apart, do the same step by step (`Machine.Alike.step`).  Their states never agree altogether:
frames remember different things about their locals, handlers began at different times, statistics
and clocks have nothing to do with each other, and the journals hold different remarks.
`Machine.Alike` is what they agree in, and it is enough to make them halt together and with the
same answer (`Machine.Alike.run`).

What the two worlds have in common is a parameter, `W`.  All that a run does to a world is in the
fields of `World.Congruence`, so nothing here has to be said again for another choice of `W`.
-/

namespace MessageMachine

/-! ## States that are alike -/

/-- The same natives and the same limits.  What is recorded, profiled and kept track of
is left open. -/
structure Environment.Alike (env env' : Environment) : Prop where
  natives : env'.natives = env.natives
  maxStatements : env.settings.maxStatements = env'.settings.maxStatements
  maxDepth : env.settings.maxDepth = env'.settings.maxDepth

/-- The same counters of the run, in related worlds.  Statistics are left open. -/
structure Session.Alike (W : World → World → Prop) (s s' : Session) : Prop where
  world : W s.world s'.world
  statements : s.statements = s'.statements
  nativeCalls : s.nativeCalls = s'.nativeCalls
  unwinding : s.unwinding = s'.unwinding

/-- Executions that are alike, waiting for the same. -/
structure Caller.Alike (c c' : Caller) : Prop where
  execution : c.execution.Alike c'.execution
  send : c.send = c'.send
  destination : c.destination = c'.destination

/-- The executions that wait are alike. -/
def Callers.Alike (cs cs' : Callers) : Prop := List.Forall₂ Caller.Alike cs.list cs'.list

/-- The same is to be done next. -/
inductive Control.Alike : Control → Control → Prop
  | dispatch (send : Send) : Alike (.dispatch send) (.dispatch send)
  | seek (send : Send) (start : ClassId) (again : Bool) :
    Alike (.seek send start again) (.seek send start again)
  | execute {e e' : Execution} (h : e.Alike e') : Alike (.execute e) (.execute e')
  | abandon {e e' : Execution} (h : e.Alike e') (f : Fault) : Alike (.abandon e f) (.abandon e' f)
  | answer (result : Except Fault Value) : Alike (.answer result) (.answer result)
  | halted (result : Except Fault Ending) {x x' : Option Execution}
      (h : Option.Rel Execution.Alike x x') :
    Alike (.halted result x) (.halted result x')

/-- Two machines of which no run can tell which is which. -/
structure Machine.Alike (W : World → World → Prop) (m m' : Machine) : Prop where
  session : m.session.Alike W m'.session
  callers : m.callers.Alike m'.callers
  control : m.control.Alike m'.control

/-! ## Callers -/

theorem Caller.filterMap_activation?_of_alike {list list' : List Caller}
    (h : List.Forall₂ Caller.Alike list list') :
    (list.filterMap fun c => c.execution.activation?) =
      list'.filterMap fun c => c.execution.activation? := by
  induction h with
  | nil => rfl
  | cons head _ ih => rw [List.filterMap_cons, List.filterMap_cons, head.execution.activation?, ih]

namespace Callers.Alike

variable {cs cs' : Callers}

/-- Diagnostics show the same stack of handlers. -/
theorem activations (h : cs.Alike cs') : cs.activations = cs'.activations := by
  rw [cs.activations_eq, cs'.activations_eq]
  exact Caller.filterMap_activation?_of_alike h

theorem depth (h : cs.Alike cs') : cs.depth = cs'.depth := by
  rw [cs.depth_eq, cs'.depth_eq, h.activations]

theorem push (h : cs.Alike cs') {c c' : Caller} (hc : c.Alike c') :
    (cs.push c).Alike (cs'.push c') := by
  unfold Callers.Alike
  rw [list_push, list_push]
  exact .cons hc h

/-- The innermost callers are alike, if there are any, and so are the others. -/
theorem pop? (h : cs.Alike cs') :
    Option.Rel (fun p p' => p.1.Alike p'.1 ∧ p.2.Alike p'.2) cs.pop? cs'.pop? := by
  unfold Callers.Alike at h
  cases pop : cs.pop? with
  | none =>
    rw [list_of_pop?_none pop] at h
    cases pop' : cs'.pop? with
    | none => exact .none
    | some p' =>
      rw [list_of_pop? pop'] at h
      cases h
  | some p =>
    rw [list_of_pop? pop] at h
    cases pop' : cs'.pop? with
    | none =>
      rw [list_of_pop?_none pop'] at h
      cases h
    | some p' =>
      rw [list_of_pop? pop'] at h
      cases h with
      | cons head others => exact .some ⟨head, others⟩

end Callers.Alike

/-! ## Bookkeeping -/

/-- Arguments are bound to the same values, whether locals are tracked or not. -/
theorem Handler.alike_bind (handler : Handler) (track track' : Bool) (arguments : List Argument) :
    (handler.bind track arguments).Alike (handler.bind track' arguments) := by
  simp only [Frame.Alike, Frame.values, Handler.bind, List.map_append, List.map_replicate,
    Frame.blank]

/-- Keeping the time of a handler changes at most the clock and the statistics. -/
theorem Machine.keepTime_eq (env : Environment) (s : Session) (h : Handling) :
    ∃ clock statistics, keepTime env s h =
      { s with world := { s.world with clock }, statistics } := by
  unfold keepTime
  split
  · exact ⟨_, _, rfl⟩
  · exact ⟨s.world.clock, s.statistics, rfl⟩

namespace Session.Alike

variable {W : World → World → Prop} {s s' : Session}

theorem moment (h : s.Alike W s') {e e' : Execution} (he : e.Alike e') :
    (s.moment e).Alike W 0 (s'.moment e') :=
  ⟨h.world, h.nativeCalls, he⟩

theorem after (h : s.Alike W s') {m m' : Moment} (hm : m.Alike W 0 m') :
    (s.after m).Alike W (s'.after m') :=
  ⟨hm.world, h.statements, hm.nativeCalls, h.unwinding⟩

variable (hW : World.Congruence W)

include hW

theorem report (h : s.Alike W s') (stack : List Activation) (f : Fault) :
    (s.report stack f).Alike W (s'.report stack f) := by
  unfold Session.report
  rw [h.unwinding]
  split
  · exact h
  · refine ⟨?_, h.statements, h.nativeCalls, rfl⟩
    dsimp only
    split
    · exact hW.log (hW.log h.world _) _
    · exact hW.log h.world _

theorem forgive (h : s.Alike W s') {c c' : Caller} (hc : c.Alike c') (r : Except Fault Value) :
    (s.forgive c r).Alike W (s'.forgive c' r) := by
  unfold Session.forgive
  split
  · exact h
  split
  · exact h
  · refine ⟨?_, h.statements, h.nativeCalls, rfl⟩
    dsimp only
    rw [hc.execution.activation?, hc.send]
    exact hW.log h.world _

theorem keepTime (h : s.Alike W s') (env env' : Environment) (x x' : Handling) :
    (Machine.keepTime env s x).Alike W (Machine.keepTime env' s' x') := by
  obtain ⟨clock, statistics, e⟩ := Machine.keepTime_eq env s x
  obtain ⟨clock', statistics', e'⟩ := Machine.keepTime_eq env' s' x'
  rw [e, e']
  exact ⟨hW.clock h.world clock clock', h.statements, h.nativeCalls, h.unwinding⟩

end Session.Alike

/-! ## Steps -/

namespace Machine.Alike

variable {W : World → World → Prop} {m m' : Machine}

theorem isHalted (h : m.Alike W m') : m.control.isHalted = m'.control.isHalted := by
  have control := h.control
  generalize m.control = c at control
  generalize m'.control = c' at control
  cases control <;> rfl

theorem result (h : m.Alike W m') : m.result = m'.result := by
  have control := h.control
  unfold Machine.result
  generalize m.control = c at control
  generalize m'.control = c' at control
  cases control with
  | halted result =>
    match result with
    | .ok (.value v) | .ok .handOver | .error f => rfl
  | _ => rfl

variable (hW : World.Congruence W) (hs : m.session.Alike W m'.session)
  (hc : m.callers.Alike m'.callers)

include hW hs hc

theorem refuse (f : Fault) : (m.refuse f).Alike W (m'.refuse f) := by
  refine ⟨?_, hc, .answer _⟩
  show (m.session.report _ f).Alike W (m'.session.report _ f)
  rw [hc.activations]
  exact hs.report hW _ f

theorem begin (send : Send) (cls : Class) (handler : Handler) :
    (m.begin send cls handler).Alike W (m'.begin send cls handler) :=
  ⟨⟨hW.clock hs.world _ _, hs.statements, hs.nativeCalls, hs.unwinding⟩, hc,
    .execute ⟨rfl, rfl, rfl, handler.alike_bind _ _ _, rfl⟩⟩

theorem seek (send : Send) (start : ClassId) (again : Bool) :
    (m.seek send start again).Alike W (m'.seek send start again) := by
  unfold Machine.seek
  rw [hW.classes hs.world]
  split
  · exact begin hW hs hc _ _ _
  · split
    · exact ⟨hs, hc, .answer _⟩
    · exact refuse hW hs hc _

theorem dispatch {env env' : Environment} (he : env.Alike env') (send : Send) :
    (m.dispatch env send).Alike W (m'.dispatch env' send) := by
  have receiver := hW.classOf hs.world send.receiver
  unfold Machine.dispatch
  rw [he.maxDepth, hc.depth]
  split
  · exact refuse hW hs hc _
  split
  · exact refuse hW hs hc _
  cases found : m.session.world.objects.get? send.receiver with
  | none =>
    rw [found] at receiver
    have missing := Option.map_eq_none_iff.mp receiver.symm
    rw [missing]
    exact refuse hW hs hc _
  | some o =>
    rw [found] at receiver
    obtain ⟨o', found', same⟩ := Option.map_eq_some_iff.mp receiver.symm
    rw [found']
    dsimp only
    rw [same]
    exact ⟨hs, hc, .seek _ _ _⟩

variable (m m') in
theorem leave (env env' : Environment) {e e' : Execution} (h : e.Alike e')
    (result : Except Fault Ending) : (m.leave env e result).Alike W (m'.leave env' e' result) := by
  have role := h.role
  cases handles : e.role with
  | none =>
    rw [handles] at role
    have handles' := Option.map_eq_none_iff.mp role.symm
    rw [leave_alone env m handles, leave_alone env' m' handles']
    exact ⟨hs, hc, .halted _ (.some h)⟩
  | some x =>
    rw [handles] at role
    obtain ⟨x', handles', same⟩ := Option.map_eq_some_iff.mp role.symm
    rw [leave_handler env m handles, leave_handler env' m' handles']
    refine ⟨hs.keepTime hW env env' x x', hc, ?_⟩
    -- what follows does not depend on when the handler began
    have follows : x.followUp result = x'.followUp result := by
      have untimed (y : Handling) : y.followUp result = y.untimed.followUp result := rfl
      rw [untimed, untimed x', same]
    show (x.followUp result).Alike (x'.followUp result)
    rw [← follows]
    rcases x.followUp_cases result with ⟨f, -, e⟩ | ⟨_, v, -, e⟩ | ⟨parent, -, e⟩
    · rw [e]
      exact .answer _
    · rw [e]
      exact .answer _
    · rw [e]
      exact .seek _ _ _

theorem abandon (env env' : Environment) {e e' : Execution} (h : e.Alike e') (f : Fault) :
    (m.abandon env e f).Alike W (m'.abandon env' e' f) := by
  have stack : e.stackOn m.callers.activations = e'.stackOn m'.callers.activations := by
    unfold Execution.stackOn
    rw [h.activation?, hc.activations]
  unfold Machine.abandon
  rw [stack]
  exact leave { m with session := _ } { m' with session := _ } hW (hs.report hW _ f) hc env env' h _

variable (m m') in
theorem settle (env env' : Environment) {moment moment' : Moment} (h : moment.Alike W 0 moment')
    (result : Except Fault Next) :
    (m.settle env result moment).Alike W (m'.settle env' result moment') := by
  have session := hs.after h
  match result with
  | .error f => exact ⟨session, hc, .abandon h.execution f⟩
  | .ok .proceed => exact ⟨session, hc, .execute h.execution⟩
  | .ok (.await send destination) =>
    exact ⟨session, hc.push ⟨h.execution, rfl, rfl⟩, .dispatch send⟩
  | .ok (.leave ending) =>
    exact leave { m with session := _ } { m' with session := _ } hW session hc env env'
      h.execution _

theorem execute {env env' : Environment} (he : env.Alike env') (hn : env.natives.IsStandard)
    {e e' : Execution} (h : e.Alike e') : (m.execute env e).Alike W (m'.execute env' e') := by
  have counted : m.counted.session.Alike W m'.counted.session :=
    ⟨hs.world, congrArg (· + 1) hs.statements, hs.nativeCalls, hs.unwinding⟩
  have code : e.cursor.atEnd = e'.cursor.atEnd := congrArg Cursor.atEnd h.cursor
  cases atEnd : e.cursor.atEnd with
  | true =>
    rw [execute_of_atEnd env m atEnd, execute_of_atEnd env' m' (code ▸ atEnd)]
    exact ⟨hs, hc, .abandon h _⟩
  | false =>
    by_cases budget : m.session.statements < env.settings.maxStatements
    · have budget' : m'.session.statements < env'.settings.maxStatements := by
        rw [← hs.statements, ← he.maxStatements]
        exact budget
      have blind : Action.Blind W 0 (Action.statement (m.scope env (m.session.statements + 1)))
          (Action.statement (m'.scope env' (m'.session.statements + 1))) :=
        Action.Blind.statement hW hn he.natives
      obtain ⟨same, related⟩ := blind _ _ (hs.moment h)
      rw [execute_eq env m atEnd budget, execute_eq env' m' (code ▸ atEnd) budget', ← same]
      exact settle m.counted m'.counted hW counted hc env env' related _
    · have exhausted : env.settings.maxStatements ≤ m.session.statements := Nat.le_of_not_lt budget
      have exhausted' : env'.settings.maxStatements ≤ m'.session.statements := by
        rw [← hs.statements, ← he.maxStatements]
        exact exhausted
      rw [execute_of_overrun env m atEnd exhausted,
        execute_of_overrun env' m' (code ▸ atEnd) exhausted',
        he.maxStatements]
      exact ⟨counted, hc, .abandon h _⟩

variable (m m') in
theorem resume {c c' : Caller} (h : c.Alike c') (value : Value) :
    (m.resume c value).Alike W (m'.resume c' value) := by
  obtain ⟨same, related⟩ := Action.Blind.assignIf hW c.destination value _ _
    (hs.moment h.execution)
  unfold Machine.resume
  rw [← h.destination]
  generalize Action.assignIf c.destination value (m.session.moment c.execution) = outcome
    at same related
  generalize Action.assignIf c.destination value (m'.session.moment c'.execution) = outcome'
    at same related
  obtain ⟨result, moment⟩ := outcome
  obtain ⟨result', moment'⟩ := outcome'
  cases same
  cases result with
  | ok u => exact ⟨hs.after related, hc, .execute related.execution⟩
  | error f => exact ⟨hs.after related, hc, .abandon related.execution f⟩

theorem answer (result : Except Fault Value) : (m.answer result).Alike W (m'.answer result) := by
  have pops := hc.pop?
  rw [answer_eq, answer_eq]
  generalize m.callers.pop? = popped at pops
  generalize m'.callers.pop? = popped' at pops
  cases pops with
  | none => exact ⟨hs, hc, .halted _ .none⟩
  | @some p p' h =>
    obtain ⟨c, callers⟩ := p
    obtain ⟨c', callers'⟩ := p'
    obtain ⟨caller, others⟩ := h
    dsimp only at caller others ⊢
    cases contained result with
    | error f => exact ⟨hs, others, .abandon caller.execution f⟩
    | ok value =>
      exact resume { session := _, callers, control := _ }
        { session := _, callers := callers', control := _ }
        hW (hs.forgive hW caller result) others caller value

end Machine.Alike

namespace Machine.Alike

variable {W : World → World → Prop} (hW : World.Congruence W) {env env' : Environment}
  (he : env.Alike env') (hn : env.natives.IsStandard)

include hW he hn

/-- **Machines that are alike are alike after a step.** -/
theorem step {m m' : Machine} (h : m.Alike W m') : (m.step env).Alike W (m'.step env') := by
  have ⟨hs, hc, same⟩ := h
  generalize control : m.control = c at same
  generalize control' : m'.control = c' at same
  unfold Machine.step
  rw [control, control']
  cases same with
  | dispatch send => exact dispatch hW hs hc he send
  | seek send start again => exact seek hW hs hc send start again
  | execute same => exact execute hW hs hc he hn same
  | abandon same f => exact abandon hW hs hc env env' same f
  | answer result => exact answer hW hs hc result
  | halted => exact h

/-- **Machines that are alike are alike when they have halted.** -/
theorem run {m m' : Machine} (h : m.Alike W m') : (m.run env).Alike W (m'.run env') := by
  induction m using run_induction env generalizing m' with
  | halted m hm =>
    rw [run_of_halted env hm, run_of_halted env' (h.isHalted ▸ hm)]
    exact h
  | running m hm ih =>
    rw [run_of_running env hm, run_of_running env' (h.isHalted ▸ hm)]
    exact ih (h.step hW he hn)

end Machine.Alike

end MessageMachine
