import MessageMachine.Proofs.Statement.Lockstep
import MessageMachine.Proofs.Machine.Nesting

/-!
# Twin runs

Two machines with the same settings and natives do the same, step by step, when their worlds differ
only in what the code never looks at.  Everything else about their states is the same then, down to
statistics and journal.

What the code looks at depends on whom it runs for: it reaches objects only as the receiver of its
sends.  So `World.Twinship V T natives` is about receivers that satisfy `T`: to code that runs for
these, worlds related by `V` look the same and stay related.  `Machine.Twins.step` carries this over
to states of the machine, as long as all receivers satisfy `T` (`Machine.Within`).
-/

namespace MessageMachine

/-- To code that runs for receivers that satisfy `T`, and to the given natives, worlds related by
`V` look the same, and they stay related. -/
structure World.Twinship (V : World → World → Prop) (T : ObjectId → Prop) (natives : NativeTable) :
    Prop where
  read {w w' : World} (h : V w w') {receiver : ObjectId} (known : T receiver) (frame : Frame)
    (kind : OperandKind) (data : UInt32) :
    (w.read receiver frame kind data).1 = (w'.read receiver frame kind data).1 ∧
      V (w.read receiver frame kind data).2 (w'.read receiver frame kind data).2
  write {w w' : World} (h : V w w') {receiver : ObjectId} (known : T receiver) (frame : Frame)
    (place : Place) (index : UInt32) (value : Value) :
    (w.write receiver frame place.kind index value).1 =
        (w'.write receiver frame place.kind index value).1 ∧
      V (w.write receiver frame place.kind index value).2
        (w'.write receiver frame place.kind index value).2
  native {index : UInt8} {n : Native} (slot : natives.slot index = some n) (c : Call) {w w' : World}
    (h : V w w') : (n.run c w).1 = (n.run c w').1 ∧ V (n.run c w).2 (n.run c w').2
  classOf {w w' : World} (h : V w w') {id : ObjectId} (known : T id) :
    (w.objects.get? id).map Object.classId = (w'.objects.get? id).map Object.classId
  classes {w w' : World} (h : V w w') : w.classes = w'.classes
  clock {w w' : World} (h : V w w') : w.clock = w'.clock
  withClock {w w' : World} (h : V w w') (clock : Clock) : V { w with clock } { w' with clock }
  log {w w' : World} (h : V w w') (x : Entry) : V (w.log x) (w'.log x)

variable {V : World → World → Prop} {T : ObjectId → Prop}

/-! ## Statements -/

/-- The same execution in worlds related by `V`, for a receiver that satisfies `T`. -/
structure Moment.Twins (V : World → World → Prop) (T : ObjectId → Prop) (m m' : Moment) : Prop where
  world : V m.world m'.world
  statistics : m.statistics = m'.statistics
  nativeCalls : m.nativeCalls = m'.nativeCalls
  execution : m.execution = m'.execution
  known : T m.execution.receiver

namespace Moment.Twins

theorem moveTo {m m' : Moment} (h : m.Twins V T m') (c : Cursor) :
    (m.moveTo c).Twins V T (m'.moveTo c) :=
  ⟨h.world, h.statistics, h.nativeCalls,
    congrArg (fun e : Execution => { e with cursor := c }) h.execution, h.known⟩

theorem setLine (line : UInt32) :
    Lockstep (Moment.Twins V T) (Action.setLine line) (Action.setLine line) :=
  Lockstep.modify fun _ _ h =>
    ⟨h.world, h.statistics, h.nativeCalls, by rw [h.execution], h.known⟩

variable {natives : NativeTable} (hV : World.Twinship V T natives)

include hV

theorem opened {m m' : Moment} (h : m.Twins V T m') (scope : Scope) :
    (Action.opened scope m).Twins V T (Action.opened scope m') := by
  have known := h.known
  unfold Action.opened
  rw [h.execution] at known ⊢
  cases m'.execution.cursor.opcode? with
  | none => exact h
  | some p =>
    dsimp only
    split
    · exact ⟨hV.log h.world _, h.statistics, h.nativeCalls, rfl, known⟩
    · exact h

theorem fetch (kind : OperandKind) (data : UInt32) :
    Lockstep (Moment.Twins V T) (Action.fetch kind data) (Action.fetch kind data) := by
  intro m m' h
  obtain ⟨same, after⟩ := hV.read h.world h.known m.execution.frame kind data
  rw [Action.fetch_run, Action.fetch_run, ← h.execution]
  refine ⟨same, ?_, h.statistics, h.nativeCalls, rfl, h.known⟩
  unfold Action.fetched
  rw [← h.execution]
  generalize m.world.read m.execution.receiver m.execution.frame kind data = x at same after
  generalize m'.world.read m.execution.receiver m.execution.frame kind data = x' at same after
  obtain ⟨r, w⟩ := x
  obtain ⟨r', w'⟩ := x'
  cases same
  cases r with
  | error f => exact after
  | ok v =>
    dsimp only
    split
    · exact hV.log after _
    · exact after

theorem assign (destination : Destination) (value : Value) :
    Lockstep (Moment.Twins V T) (Action.assign destination value)
      (Action.assign destination value) := by
  intro m m' h
  obtain ⟨same, after⟩ := hV.write h.world h.known m.execution.frame destination.place
    destination.index value
  rw [Action.assign_run, Action.assign_run, ← h.execution]
  generalize m.world.write m.execution.receiver m.execution.frame destination.place.kind
    destination.index value = x at same after
  generalize m'.world.write m.execution.receiver m.execution.frame destination.place.kind
    destination.index value = x' at same after
  obtain ⟨r, w⟩ := x
  obtain ⟨r', w'⟩ := x'
  cases same
  cases r with
  | ok frame => exact ⟨rfl, after, h.statistics, h.nativeCalls, rfl, h.known⟩
  | error f => exact ⟨rfl, after, h.statistics, h.nativeCalls, rfl, h.known⟩

theorem invoke (scope : Scope) {index : UInt8} {native : Native}
    (slot : natives.slot index = some native) (positional : List Value) (named : List Argument) :
    Lockstep (Moment.Twins V T) (Action.invoke scope index native positional named)
      (Action.invoke scope index native positional named) := by
  intro m m' h
  have counted : (Action.countedCall index native m).Twins V T
      (Action.countedCall index native m') :=
    ⟨hV.log h.world _, congrArg (Statistics.countNative · index) h.statistics,
      congrArg (· + 1) h.nativeCalls, h.execution, h.known⟩
  have seen : Action.seenCall scope native positional named (Action.countedCall index native m) =
      Action.seenCall scope native positional named (Action.countedCall index native m') := by
    unfold Action.seenCall
    rw [counted.execution, counted.statistics, counted.nativeCalls]
  rw [Action.invoke_eq, Action.invoke_eq, seen]
  obtain ⟨same, after⟩ := hV.native slot (Action.seenCall scope native positional named
    (Action.countedCall index native m')) counted.world
  exact ⟨congrArg Except.ok same, after, counted.statistics, counted.nativeCalls, h.execution,
    h.known⟩

/-- **A statement does the same to twins.** -/
theorem statement {scope : Scope} (table : scope.environment.natives = natives) :
    Lockstep (Moment.Twins V T) (Action.statement scope) (Action.statement scope) :=
  Action.Correspondence.statement {
    natives := rfl
    cursor := fun h => congrArg Execution.cursor h.execution
    codeStart := fun h => congrArg Execution.codeStart h.execution
    moveTo := fun h c => h.moveTo c
    opened := fun h => h.opened hV scope
    setLine
    fetch := fetch hV
    assign := assign hV
    invoke := fun _ _ slot => invoke hV scope (table ▸ slot) }

end Moment.Twins

/-! ## States -/

/-- The same session in worlds related by `V`. -/
structure Session.Twins (V : World → World → Prop) (s s' : Session) : Prop where
  world : V s.world s'.world
  statistics : s.statistics = s'.statistics
  statements : s.statements = s'.statements
  nativeCalls : s.nativeCalls = s'.nativeCalls
  unwinding : s.unwinding = s'.unwinding

/-- The same state in worlds related by `V`. -/
structure Machine.Twins (V : World → World → Prop) (m m' : Machine) : Prop where
  session : m.session.Twins V m'.session
  callers : m.callers = m'.callers
  control : m.control = m'.control

theorem Machine.Twins.result {m m' : Machine} (h : m.Twins V m') : m.result = m'.result := by
  unfold Machine.result
  rw [h.control]

namespace Session.Twins

variable {s s' : Session} {natives : NativeTable}

theorem moment (h : s.Twins V s') {e : Execution} (known : T e.receiver) :
    (s.moment e).Twins V T (s'.moment e) :=
  ⟨h.world, h.statistics, h.nativeCalls, rfl, known⟩

theorem after (h : s.Twins V s') {m m' : Moment} (hm : m.Twins V T m') :
    (s.after m).Twins V (s'.after m') :=
  ⟨hm.world, hm.statistics, h.statements, hm.nativeCalls, h.unwinding⟩

variable (hV : World.Twinship V T natives)

include hV

theorem report (h : s.Twins V s') (stack : List Activation) (f : Fault) :
    (s.report stack f).Twins V (s'.report stack f) := by
  unfold Session.report
  rw [h.unwinding]
  split
  · exact h
  · refine ⟨?_, h.statistics, h.statements, h.nativeCalls, rfl⟩
    dsimp only
    split
    · exact hV.log (hV.log h.world _) _
    · exact hV.log h.world _

theorem forgive (h : s.Twins V s') (c : Caller) (r : Except Fault Value) :
    (s.forgive c r).Twins V (s'.forgive c r) := by
  unfold Session.forgive
  split
  · exact h
  split
  · exact h
  · exact ⟨hV.log h.world _, h.statistics, h.statements, h.nativeCalls, rfl⟩

theorem keepTime (h : s.Twins V s') (env : Environment) (x : Handling) :
    (Machine.keepTime env s x).Twins V (Machine.keepTime env s' x) := by
  unfold Machine.keepTime
  rw [← hV.clock h.world, ← h.statistics]
  split
  · exact ⟨hV.withClock h.world _, rfl, h.statements, h.nativeCalls, h.unwinding⟩
  · exact h

/-- The end of a top-level send leaves the worlds related and the same statistics. -/
theorem endSend (h : s.Twins V s') (e e' : Engine) (send : Send) (started : UInt64) :
    V (e.endSend send started s).world (e'.endSend send started s').world ∧
      (e.endSend send started s).statistics = (e'.endSend send started s').statistics := by
  unfold Engine.endSend
  dsimp only
  rw [← hV.clock h.world, ← h.statements, ← h.nativeCalls, ← h.statistics]
  exact ⟨hV.log (hV.withClock h.world _) _, rfl⟩

end Session.Twins

/-! ## Steps -/

/-- All that is active runs for receivers that satisfy `T`, and so will whoever gets the send that
is being checked. -/
structure Machine.Within (T : ObjectId → Prop) (m : Machine) : Prop where
  active : ∀ x ∈ m.active, T x.receiver
  dispatch : ∀ send, m.control = .dispatch send → T send.receiver

namespace Machine.Twins

variable {env : Environment} (hV : World.Twinship V T env.natives) {m m' : Machine}
  (hs : m.session.Twins V m'.session) (hc : m.callers = m'.callers)

include hV hs hc

theorem refuse (f : Fault) : (m.refuse f).Twins V (m'.refuse f) := by
  refine ⟨?_, hc, rfl⟩
  show (m.session.report _ f).Twins V (m'.session.report _ f)
  rw [hc]
  exact hs.report hV _ f

theorem dispatch (send : Send) (known : T send.receiver) :
    (m.dispatch env send).Twins V (m'.dispatch env send) := by
  have sameClass := hV.classOf hs.world known
  unfold Machine.dispatch
  rw [hc]
  split
  · exact refuse hV hs hc _
  split
  · exact refuse hV hs hc _
  generalize m.session.world.objects.get? send.receiver = o at sameClass
  generalize m'.session.world.objects.get? send.receiver = o' at sameClass
  match o, o' with
  | none, none => exact refuse hV hs hc _
  | some o, some o' =>
    dsimp only
    rw [show o.classId = o'.classId from Option.some.inj sameClass]
    exact ⟨hs, rfl, rfl⟩

theorem begin (send : Send) (cls : Class) (handler : Handler) :
    (m.begin send cls handler).Twins V (m'.begin send cls handler) := by
  unfold Machine.begin
  dsimp only
  rw [← hV.clock hs.world, ← hs.statistics, hc]
  exact ⟨⟨hV.withClock hs.world _, rfl, hs.statements, hs.nativeCalls, hs.unwinding⟩, rfl, rfl⟩

theorem seek (send : Send) (start : ClassId) (again : Bool) :
    (m.seek send start again).Twins V (m'.seek send start again) := by
  unfold Machine.seek
  rw [← hV.classes hs.world]
  split
  · exact begin hV hs hc _ _ _
  split
  · exact ⟨hs, hc, rfl⟩
  · exact refuse hV hs hc _

variable (m m') in
theorem leave (e : Execution) (result : Except Fault Ending) :
    (m.leave env e result).Twins V (m'.leave env e result) := by
  cases role : e.role with
  | none =>
    rw [leave_alone env m role, leave_alone env m' role]
    exact ⟨hs, hc, rfl⟩
  | some x =>
    rw [leave_handler env m role, leave_handler env m' role]
    exact ⟨hs.keepTime hV env x, hc, rfl⟩

theorem abandon (e : Execution) (f : Fault) :
    (m.abandon env e f).Twins V (m'.abandon env e f) := by
  have stack : e.stackOn m.callers.activations = e.stackOn m'.callers.activations := by rw [hc]
  unfold Machine.abandon
  rw [stack]
  exact leave hV { m with session := _ } { m' with session := _ } (hs.report hV _ f) hc e _

variable (m m') in
theorem settle {moment moment' : Moment} (h : moment.Twins V T moment')
    (result : Except Fault Next) :
    (m.settle env result moment).Twins V (m'.settle env result moment') := by
  have session := hs.after h
  unfold Machine.settle
  rw [← h.execution]
  match result with
  | .error f => exact ⟨session, hc, rfl⟩
  | .ok .proceed => exact ⟨session, hc, rfl⟩
  | .ok (.await send destination) =>
    refine ⟨session, ?_, rfl⟩
    dsimp only
    rw [hc]
  | .ok (.leave ending) =>
    exact leave hV { m with session := _ } { m' with session := _ } session hc _ _

theorem execute {e : Execution} (known : T e.receiver) :
    (m.execute env e).Twins V (m'.execute env e) := by
  have counted : m.counted.session.Twins V m'.counted.session :=
    ⟨hs.world, hs.statistics, congrArg (· + 1) hs.statements, hs.nativeCalls, hs.unwinding⟩
  cases code : e.cursor.atEnd with
  | true =>
    rw [execute_of_atEnd env m code, execute_of_atEnd env m' code]
    exact ⟨hs, hc, rfl⟩
  | false =>
    have same := hs.statements
    by_cases budget : m.session.statements < env.settings.maxStatements
    · have scope : m'.scope env (m'.session.statements + 1) =
          m.scope env (m.session.statements + 1) := by
        unfold Machine.scope
        rw [hc, same]
      have lockstep : Lockstep (Moment.Twins V T)
          (Action.statement (m.scope env (m.session.statements + 1)))
          (Action.statement (m.scope env (m.session.statements + 1))) :=
        Moment.Twins.statement hV rfl
      obtain ⟨result, related⟩ := lockstep _ _ (hs.moment known)
      rw [execute_eq env m code budget, execute_eq env m' code (same ▸ budget), scope, ← result]
      exact settle hV m.counted m'.counted counted hc related _
    · have exhausted := Nat.le_of_not_lt budget
      rw [execute_of_overrun env m code exhausted,
        execute_of_overrun env m' code (same ▸ exhausted)]
      exact ⟨counted, hc, rfl⟩

variable (m m') in
theorem resume {c : Caller} (known : T c.execution.receiver) (value : Value) :
    (m.resume c value).Twins V (m'.resume c value) := by
  obtain ⟨same, related⟩ := Action.lockstep_assignIf (Moment.Twins.assign hV) c.destination value
    _ _ (hs.moment known)
  unfold Machine.resume
  generalize Action.assignIf c.destination value (m.session.moment c.execution) = x at same related
  generalize
    Action.assignIf c.destination value (m'.session.moment c.execution) = x' at same related
  obtain ⟨result, moment⟩ := x
  obtain ⟨result', moment'⟩ := x'
  cases same
  have execution : moment.execution = moment'.execution := related.execution
  cases result with
  | ok u => exact ⟨hs.after related, hc, congrArg Control.execute execution⟩
  | error f => exact ⟨hs.after related, hc, congrArg (Control.abandon · f) execution⟩

theorem answer (result : Except Fault Value)
    (known : ∀ c callers, m'.callers.pop? = some (c, callers) → T c.execution.receiver) :
    (m.answer result).Twins V (m'.answer result) := by
  rw [answer_eq, answer_eq, hc]
  cases pop : m'.callers.pop? with
  | none => exact ⟨hs, rfl, rfl⟩
  | some p =>
    obtain ⟨c, callers⟩ := p
    dsimp only
    cases contained result with
    | error f => exact ⟨hs, rfl, rfl⟩
    | ok value =>
      exact resume hV { session := _, callers, control := _ }
        { session := _, callers, control := _ }
        (hs.forgive hV c result) rfl (known c callers pop) value

end Machine.Twins

namespace Machine.Twins

variable {env : Environment} (hV : World.Twinship V T env.natives) {m m' : Machine}

include hV

/-- **A step does the same to twins.** -/
theorem step (h : m.Twins V m') (within : m.Within T) : (m.step env).Twins V (m'.step env) := by
  have ⟨hs, hc, same⟩ := h
  unfold Machine.step
  rw [← same]
  cases control : m.control with
  | dispatch send => exact dispatch hV hs hc send (within.dispatch send control)
  | seek send start again => exact seek hV hs hc send start again
  | execute e =>
    exact execute hV hs hc (within.active e (mem_active_of_work (by rw [control]; rfl)))
  | abandon e f => exact abandon hV hs hc e f
  | answer result =>
    refine answer hV hs hc result fun c callers pop => ?_
    rw [← hc] at pop
    refine within.active c.execution (mem_active_of_waits ?_)
    rw [Callers.list_of_pop? pop]
    exact List.mem_cons_self
  | halted => exact h

/-- **Twins go through the same states and halt as twins.** -/
theorem run (h : m.Twins V m') (within : ∀ s ∈ m.trace env, s.Within T) :
    List.Forall₂ (Machine.Twins V) (m.trace env) (m'.trace env) ∧
      (m.run env).Twins V (m'.run env) := by
  induction m using run_induction env generalizing m' with
  | halted m hm =>
    have hm' : m'.control.isHalted = true := h.control ▸ hm
    rw [trace_of_halted env hm, trace_of_halted env hm', run_of_halted env hm,
      run_of_halted env hm']
    exact ⟨.cons h .nil, h⟩
  | running m hm ih =>
    have hm' : m'.control.isHalted = false := h.control ▸ hm
    rw [trace_of_running env hm] at within ⊢
    rw [trace_of_running env hm', ← run_step env m, ← run_step env m']
    obtain ⟨first, others⟩ := List.forall_mem_cons.mp within
    obtain ⟨states, last⟩ := ih (h.step hV first) others
    exact ⟨.cons h states, last⟩

end Machine.Twins

end MessageMachine
