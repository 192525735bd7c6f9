import MessageMachine.Proofs.Machine.Budget
import MessageMachine.Proofs.Statement.Invocation

/-!
# Limits only cut off

Two limits of the settings can stop a run: the statements that it may count, and the handlers
that may run inside one another.  Apart from stopping it they have no influence.  A run that
neither limit has stopped anywhere goes through the same states under all limits that leave
it room (`Machine.run_withLimits`).

No state of the machine mentions a limit, so the two runs need no relation between their states.
What has to be shown is that a step leads to the same state under both limits, unless one of them
stops it (`Machine.step_withLimits`).  Within a statement that is so because the standard natives do
not look at the settings (`Action.statement_congr`).

Nested sends matter here.  A send that is refused for its depth becomes nil for its sender, so a
limit that is met anywhere can change the answer of the run and leave no other trace in it.  This is
why the states of the run are asked for a cutoff, and not its answer.
-/

namespace MessageMachine

/-- Is the fault raised by one of the two limits? -/
def Fault.isCutoff : Fault → Bool
  | recursionLimit _ | statementBudget _ => true
  | _ => false

/-- Is a fault on its way that one of the two limits has raised? -/
def Control.isCutoff (c : Control) : Bool := c.fault?.any Fault.isCutoff

/-- The environment with other limits. -/
def Environment.withLimits (env : Environment) (statements depth : Nat) : Environment :=
  { env with settings := { env.settings with maxStatements := statements, maxDepth := depth } }

/-- The engine with other limits. -/
def Engine.withLimits (e : Engine) (statements depth : Nat) : Engine :=
  { e with settings := { e.settings with maxStatements := statements, maxDepth := depth } }

namespace Machine

variable {env : Environment}

/-! ## One step -/

theorem depth_of_dispatch {m : Machine} {send : Send} (control : m.control = .dispatch send) :
    m.depth = m.callers.depth := by
  rw [depth, stack, control, m.callers.depth_eq]

/-- A send that the depth has not stopped is checked alike under a limit that has room for it. -/
theorem dispatch_withLimits (m : Machine) (send : Send) (N d : Nat)
    (uncut : (m.dispatch env send).control.isCutoff = false) (room : m.callers.depth < d) :
    m.dispatch (env.withLimits N d) send = m.dispatch env send := by
  unfold dispatch at uncut ⊢
  by_cases named : Limits.named < send.arguments.length
  · rw [if_pos named, if_pos named]
  · have roomy : ¬ (env.withLimits N d).settings.maxDepth ≤ m.callers.depth :=
      Nat.not_le_of_lt room
    rw [if_neg named] at uncut
    rw [if_neg named, if_neg named, if_neg roomy]
    by_cases deep : env.settings.maxDepth ≤ m.callers.depth
    · rw [if_pos deep] at uncut
      cases uncut
    · rw [if_neg deep]

/-- Nothing that follows a statement looks at a limit. -/
theorem settle_withLimits (m : Machine) (result : Except Fault Next) (moment : Moment) (N d : Nat) :
    m.settle (env.withLimits N d) result moment = m.settle env result moment :=
  rfl

theorem statements_settle (m : Machine) (result : Except Fault Next) (moment : Moment) :
    (m.settle env result moment).session.statements = m.session.statements := by
  match result with
  | .error _ | .ok .proceed | .ok (.await _ _) => rfl
  | .ok (.leave ending) => exact (idle_leave env _ moment.execution (.ok ending)).statements

/-- Every statement is counted, also one that is too many. -/
theorem statements_execute (m : Machine) {e : Execution} (code : e.cursor.atEnd = false) :
    (m.execute env e).session.statements = m.session.statements + 1 := by
  by_cases budget : m.session.statements < env.settings.maxStatements
  · rw [execute_eq env m code budget]
    exact statements_settle _ _ _
  · rw [execute_of_overrun env m code (Nat.le_of_not_lt budget)]
    rfl

/-- A statement that the budget has not stopped is executed alike under a budget that has
room for it. -/
theorem execute_withLimits (hn : env.natives.IsStandard) (m : Machine) (e : Execution) (N d : Nat)
    (uncut : (m.execute env e).control.isCutoff = false)
    (room : e.cursor.atEnd = false → m.session.statements < N) :
    m.execute (env.withLimits N d) e = m.execute env e := by
  cases code : e.cursor.atEnd with
  | true => rw [execute_of_atEnd env m code, execute_of_atEnd _ m code]
  | false =>
    by_cases budget : m.session.statements < env.settings.maxStatements
    · have scopes : Action.statement (m.scope (env.withLimits N d) (m.session.statements + 1)) =
          Action.statement (m.scope env (m.session.statements + 1)) :=
        Action.statement_congr hn rfl rfl rfl
      rw [execute_eq env m code budget, execute_eq _ m code (room code), scopes, settle_withLimits]
    · rw [execute_of_overrun env m code (Nat.le_of_not_lt budget)] at uncut
      cases uncut

/-- **A step that no limit stops is the same under all limits that leave it room.** -/
theorem step_withLimits (hn : env.natives.IsStandard) (m : Machine) (N d : Nat)
    (uncut : (m.step env).control.isCutoff = false)
    (statements : (m.step env).session.statements ≤ N)
    (depth : m.depth < d) : m.step (env.withLimits N d) = m.step env := by
  cases control : m.control with
  | dispatch send =>
    rw [depth_of_dispatch control] at depth
    unfold step at uncut ⊢
    rw [control] at uncut ⊢
    exact dispatch_withLimits m send N d uncut depth
  | execute e =>
    unfold step at uncut statements ⊢
    rw [control] at uncut statements ⊢
    have room : e.cursor.atEnd = false → m.session.statements < N := by
      intro code
      rw [← Nat.succ_le_iff, Nat.succ_eq_add_one, ← statements_execute m code]
      exact statements
    exact execute_withLimits hn m e N d uncut room
  | abandon e f =>
    unfold step
    rw [control]
    rfl
  | seek | answer | halted =>
    unfold step
    rw [control]

/-! ## A run -/

/-- The counter of statements never goes back. -/
theorem statements_le_run (hn : env.natives.IsStandard) (m : Machine) :
    m.session.statements ≤ (m.run env).session.statements := by
  induction m using run_induction env with
  | halted m hm => exact Nat.le_of_eq (by rw [run_of_halted env hm])
  | running m hm ih =>
    rw [run_step] at ih
    refine Nat.le_trans ?_ ih
    rcases (transition_step env m hm).statements_cases hn with ⟨-, counts⟩ | ⟨e, -, -, -, step⟩
    · rw [counts]
      exact Nat.le_add_right _ _
    · rw [step]
      exact Nat.le_succ _

/-- **A run that no limit stops is the same under all limits that leave it room.** -/
theorem run_withLimits (hn : env.natives.IsStandard) (m : Machine) (N d : Nat)
    (uncut : ∀ s ∈ m.trace env, s.control.isCutoff = false)
    (statements : (m.run env).session.statements ≤ N) (depth : ∀ s ∈ m.trace env, s.depth < d) :
    m.trace (env.withLimits N d) = m.trace env ∧ m.run (env.withLimits N d) = m.run env := by
  induction m using run_induction env with
  | halted m hm =>
    rw [trace_of_halted env hm, trace_of_halted _ hm, run_of_halted env hm, run_of_halted _ hm]
    exact ⟨rfl, rfl⟩
  | running m hm ih =>
    have later {s : Machine} (h : s ∈ (m.step env).trace env) : s ∈ m.trace env :=
      mem_trace_of_step env hm h
    rw [← run_step] at statements
    have step : m.step (env.withLimits N d) = m.step env :=
      step_withLimits hn m N d (uncut _ (later (mem_trace_self env _)))
        (Nat.le_trans (statements_le_run hn _) statements) (depth m (mem_trace_self env m))
    obtain ⟨trace, run⟩ := ih (fun s h => uncut s (later h)) statements fun s h => depth s (later h)
    rw [trace_of_running env hm, trace_of_running _ hm, step, trace, ← run_step env, ← run_step,
      step, run]
    exact ⟨rfl, rfl⟩

end Machine

/-! ## Top-level sends -/

namespace Engine

/-- The most handlers that run inside one another in a top-level send. -/
def deepest (e : Engine) (send : Send) : Nat :=
  ((e.states send).map Machine.depth).foldr max 0

theorem deepest_le_iff (e : Engine) (send : Send) (k : Nat) :
    e.deepest send ≤ k ↔ ∀ m ∈ e.states send, m.depth ≤ k := by
  unfold deepest
  induction e.states send with
  | nil => exact ⟨fun _ _ h => (by cases h), fun _ => Nat.zero_le k⟩
  | cons m states ih =>
    rw [List.map_cons, List.foldr_cons, Nat.max_le, ih, List.forall_mem_cons]

theorem depth_le_deepest (e : Engine) {send : Send} {m : Machine} (h : m ∈ e.states send) :
    m.depth ≤ e.deepest send :=
  (e.deepest_le_iff send _).mp (Nat.le_refl _) m h

/-- **Limits only cut off.**  Let the natives be standard, and take a top-level send in which
neither of the two limits raises a fault, in a nested send or otherwise.  Under any limits that
allow for the statements that it counts, and for one handler more than the most that it runs inside
one another, the send goes through the same states.  It has the same answer, and leaves the engine
as it does under its own limits, but for the limits themselves: with the same objects, classes and
queue, the same statistics and the same journal. -/
theorem send_withLimits (e : Engine) (hn : e.natives.IsStandard) (send : Send)
    (uncut : ∀ m ∈ e.states send, m.control.isCutoff = false) (N d : Nat)
    (statements : ((e.start send).run e.environment).session.statements ≤ N)
    (depth : e.deepest send < d) :
    let result := (e.send send).1
    let after := (e.send send).2
    (e.withLimits N d).states send = e.states send ∧
      (e.withLimits N d).send send = (result, after.withLimits N d) := by
  intro result after
  obtain ⟨trace, run⟩ := Machine.run_withLimits hn (e.start send) N d uncut statements fun m h =>
    Nat.lt_of_le_of_lt (e.depth_le_deepest h) depth
  have run : ((e.withLimits N d).start send).run (e.withLimits N d).environment =
      (e.start send).run e.environment := run
  refine ⟨trace, ?_⟩
  rw [send_eq, run]
  rfl

/-- An engine with one object, whose handler for message 1 sends the object message 1 once more, the
first time, and answers with what it sees.  The second time it answers 7. -/
def recalling : Engine :=
  ofBody {} [⟨⟨0⟩, .nil⟩]
    #[1, 0, 0x45, 44, 0, 0, 0, 0, 0, 0, 0, 0x18, 2, 0, 0, 0, 0, 1, 0, 0, 0x10,
      0x64, 0, 0, 0, 0, 0, 2, 2, 0, 0, 0, 0x20, 2, 1, 0, 0, 0xB0, 0, 0x90, 0, 0, 0, 0,
      0x98, 7, 0, 0, 0x10]

theorem send_withLimits_recalling :
    let send : Send := ⟨⟨0⟩, ⟨1⟩, []⟩
    recalling.natives.IsStandard ∧
      (∀ m ∈ recalling.states send, m.control.isCutoff = false) ∧
      ((recalling.start send).run recalling.environment).session.statements ≤ 6 ∧
      recalling.deepest send < 3 ∧
      ((recalling.withLimits 6 3).send send).1.toOption = some (.int 7) := by
  intro send
  have natives : recalling.natives.IsStandard := NativeTable.isStandard_standard
  have halts : ((Machine.step recalling.environment)^[12]
      (recalling.start send)).control.isHalted = true := by decide +kernel
  have run := Machine.run_eq_iterate _ 12 _ halts
  have uncut : ∀ m ∈ recalling.states send, m.control.isCutoff = false :=
    Machine.forall_mem_trace _ 12 _ halts (by decide +kernel)
  have statements : ((recalling.start send).run recalling.environment).session.statements ≤ 6 := by
    rw [run]
    decide +kernel
  have depth : recalling.deepest send < 3 :=
    Nat.lt_succ_of_le ((recalling.deepest_le_iff send 2).mpr
      (Machine.forall_mem_trace _ 12 _ halts (by decide +kernel)))
  have answer : (recalling.send send).1.toOption = some (.int 7) := by
    rw [send_eq, run]
    decide +kernel
  obtain ⟨-, same⟩ := send_withLimits recalling natives send uncut 6 3 statements depth
  refine ⟨natives, uncut, statements, depth, ?_⟩
  rw [same]
  exact answer

end Engine

end MessageMachine
