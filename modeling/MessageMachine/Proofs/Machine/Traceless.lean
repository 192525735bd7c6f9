import MessageMachine.Proofs.Statement.Traceless

/-!
# Steps without a trace

A step of the machine that executes code fails for want of code or budget, or because
its statement fails.  In each case it leaves no trace unless its statement was a
ready call (`Machine.step_fails_without_trace`).

What comes after the statement in the same step counts no native calls (`Machine.sameCalls_settle`).
When a body ends in this step, the time of its handler may be kept, but that is another counter.
-/

namespace MessageMachine

/-- The counters of native calls are the same. -/
structure Session.SameCalls (s s' : Session) : Prop where
  nativeCalls : s'.nativeCalls = s.nativeCalls
  recorded : s'.statistics.nativeCalls = s.statistics.nativeCalls
  perNative : s'.statistics.perNative = s.statistics.perNative

namespace Machine

/-! ## What comes after the statement -/

theorem sameCalls_keepTime (env : Environment) (s : Session) (h : Handling) :
    s.SameCalls (keepTime env s h) := by
  unfold keepTime
  split
  · dsimp only
    unfold Statistics.countTime
    split <;> exact ⟨rfl, rfl, rfl⟩
  · exact ⟨rfl, rfl, rfl⟩

/-- Native calls are counted in the statement alone. -/
theorem sameCalls_settle (env : Environment) (m : Machine) (result : Except Fault Next)
    (moment : Moment) :
    (m.session.after moment).SameCalls (m.settle env result moment).session := by
  match result with
  | .error f | .ok .proceed | .ok (.await send destination) => exact ⟨rfl, rfl, rfl⟩
  | .ok (.leave ending) =>
    dsimp only [settle, leave]
    split
    · exact ⟨rfl, rfl, rfl⟩
    · exact sameCalls_keepTime env _ _

/-- The session is that after the statement, unless a body has ended. -/
theorem session_settle_of_ne_leave (env : Environment) (m : Machine) {result : Except Fault Next}
    (moment : Moment) (stays : ∀ ending, result ≠ .ok (.leave ending)) :
    (m.settle env result moment).session = m.session.after moment := by
  match result with
  | .error f | .ok .proceed | .ok (.await send destination) => rfl
  | .ok (.leave ending) => exact absurd rfl (stays ending)

/-- An execution is abandoned only after a statement that has failed. -/
theorem eq_error_of_settle {env : Environment} {m : Machine} {result : Except Fault Next}
    {moment : Moment} {e : Execution} {f : Fault}
    (abandons : (m.settle env result moment).control = .abandon e f) :
    result = .error f ∧ (m.settle env result moment).session.moment e = moment := by
  match result with
  | .error g =>
    cases abandons
    exact ⟨rfl, rfl⟩
  | .ok .proceed | .ok (.await send destination) => cases abandons
  | .ok (.leave ending) =>
    have leaves : (m.settle env (.ok (.leave ending)) moment).control = (Machine.leave env
        { m with session := m.session.after moment } moment.execution (.ok ending)).control := rfl
    rw [leaves] at abandons
    rcases control_leave env { m with session := m.session.after moment } moment.execution
      (.ok ending) with ⟨r, x, follows⟩ | ⟨r, follows⟩ | ⟨send, start, follows⟩
    all_goals
      rw [follows] at abandons
      cases abandons

/-! ## One step -/

/-- The next statement is within the budget, and it is a ready call. -/
def MakesCall (env : Environment) (m : Machine) (e : Execution) (k : ReadyCall) : Prop :=
  m.session.statements < env.settings.maxStatements ∧ (m.session.moment e).Ready env.natives k

section

variable (env : Environment) (m : Machine) {e : Execution} (control : m.control = .execute e)

include control

/-- A step within the budget executes a statement, if there is code left. -/
theorem step_of_statement (code : e.cursor.atEnd = false)
    (budget : m.session.statements < env.settings.maxStatements) :
    let ended := Action.statement (m.scope env (m.session.statements + 1)) (m.session.moment e)
    m.step env = m.counted.settle env ended.1 ended.2 := by
  unfold step
  rw [control]
  exact execute_eq env m code budget

/-- A step without a ready call counts no native call, and if it fails, nobody can tell. -/
theorem step_of_not_makesCall (idle : ¬ ∃ k, m.MakesCall env e k) :
    m.session.SameCalls (m.step env).session ∧
      ∀ e' f, (m.step env).control = .abandon e' f →
        ∃ place, ((m.session.moment e).moveTo place).Looked ((m.step env).session.moment e') := by
  have step : m.step env = m.execute env e := by
    unfold Machine.step
    rw [control]
  cases code : e.cursor.atEnd with
  | true =>
    rw [step, execute_of_atEnd env m code]
    refine ⟨⟨rfl, rfl, rfl⟩, fun e' f abandons => ?_⟩
    cases abandons
    exact ⟨e.cursor, .refl _⟩
  | false =>
    by_cases budget : m.session.statements < env.settings.maxStatements
    · have unready : ∀ k, ¬ (m.session.moment e).Ready env.natives k := fun k ready =>
        idle ⟨k, budget, ready⟩
      obtain ⟨steady, fails⟩ :=
        Action.statement_of_not_ready (m.scope env (m.session.statements + 1)) unready
      rw [step_of_statement env m control code budget]
      refine ⟨?_, fun e' f abandons => ?_⟩
      · have same := sameCalls_settle env m.counted
          (Action.statement (m.scope env (m.session.statements + 1)) (m.session.moment e)).1
          (Action.statement (m.scope env (m.session.statements + 1)) (m.session.moment e)).2
        exact ⟨same.nativeCalls.trans steady.nativeCalls,
          same.recorded.trans (congrArg Statistics.nativeCalls steady.statistics),
          same.perNative.trans (congrArg Statistics.perNative steady.statistics)⟩
      · obtain ⟨failed, moment⟩ := eq_error_of_settle abandons
        rw [moment]
        exact fails f failed
    · rw [step, execute_of_overrun env m code (Nat.le_of_not_lt budget)]
      refine ⟨⟨rfl, rfl, rfl⟩, fun e' f abandons => ?_⟩
      cases abandons
      exact ⟨e.cursor, .refl _⟩

/-- A step with a ready call counts it and runs its function, and goes on by the reply. -/
theorem step_of_makesCall {k : ReadyCall} (calls : m.MakesCall env e k) :
    let scope := m.scope env (m.session.statements + 1)
    (m.step env).session.nativeCalls = m.session.nativeCalls + 1 ∧
    (m.step env).session.statistics = m.session.statistics.countNative k.index ∧
    ∃ before, ((m.session.moment e).moveTo k.next).Looked before ∧
      let counted := Action.countedCall k.index k.native before
      let seen := Action.seenCall scope k.native k.values k.arguments counted
      let outcome := k.native.run seen counted.world
      let ended := Action.follow k.destination outcome.1 { counted with world := outcome.2 }
      m.step env = m.counted.settle env ended.1 ended.2 := by
  intro scope
  obtain ⟨budget, ready⟩ := calls
  have code : e.cursor.atEnd = false := by
    obtain ⟨-, -, -, bytes, -, -, -⟩ := ready
    exact bytes.atEnd
  obtain ⟨before, looked, run⟩ := Action.statement_of_ready scope ready
  have step := step_of_statement env m control code budget
  dsimp only at step
  rw [run] at step
  let counted := Action.countedCall k.index k.native before
  let outcome :=
    k.native.run (Action.seenCall scope k.native k.values k.arguments counted) counted.world
  let replied : Moment := { counted with world := outcome.2 }
  have steady := (Action.steadily_follow k.destination outcome.1 replied).1
  have stays := Action.gives_follow k.destination outcome.1 replied
  have session : (m.step env).session =
      m.counted.session.after (Action.follow k.destination outcome.1 replied).2 := by
    rw [step]
    exact session_settle_of_ne_leave env m.counted _
      fun ending leaves => stays _ _ (Prod.ext leaves rfl) ending rfl
  refine ⟨?_, ?_, before, looked, step⟩
  · have calls : before.nativeCalls = m.session.nativeCalls := looked.nativeCalls
    rw [session, ← calls]
    exact steady.nativeCalls
  · have statistics : before.statistics = m.session.statistics := looked.statistics
    rw [session, ← statistics]
    exact steady.statistics

/-- **A step that fails leaves no trace, unless a native function was run.**  Let the machine be
about to execute a statement, whatever its code and its natives are.

If the statement is no ready call within the budget, no native call is counted.  When the step
fails, the frame, all properties, the directory and the posts that wait are what they were, and so
are all counters; at most the place of the execution, class caches and the journal are different.

If it is a ready call, up to the reply of its function the same holds but for one call that
is counted.  The function is run once, on what it sees then, and the rest of the step depends
on its reply.

A count above its limit is refused with the cursor right behind its byte, whatever follows. -/
theorem step_fails_without_trace :
    let start := m.session.moment e
    let scope := m.scope env (m.session.statements + 1)
    ((¬ ∃ k, m.MakesCall env e k) →
      m.session.SameCalls (m.step env).session ∧
      ∀ e' f, (m.step env).control = .abandon e' f →
        ∃ place, (start.moveTo place).Looked ((m.step env).session.moment e')) ∧
    (∀ k, m.MakesCall env e k →
      (m.step env).session.nativeCalls = m.session.nativeCalls + 1 ∧
      (m.step env).session.statistics = m.session.statistics.countNative k.index ∧
      ∃ before, (start.moveTo k.next).Looked before ∧
        let counted := Action.countedCall k.index k.native before
        let seen := Action.seenCall scope k.native k.values k.arguments counted
        let outcome := k.native.run seen counted.world
        let ended := Action.follow k.destination outcome.1 { counted with world := outcome.2 }
        m.step env = m.counted.settle env ended.1 ended.2) ∧
    (m.session.statements < env.settings.maxStatements →
      ∀ b index count destination stop, Opcode.IsCall b (destination.map Destination.place) →
        e.cursor.Spans (Assembly.callHead b index destination count) stop →
        Limits.positional < count.toNat →
        ∃ after, (start.moveTo stop).Looked after ∧
          m.step env =
            m.counted.settle env (.error (.tooManyPositional count.toNat)) after) ∧
    (m.session.statements < env.settings.maxStatements →
      ∀ b index count destination positional values stop,
        Opcode.IsCall b (destination.map Destination.place) →
        positional.length ≤ Limits.positional →
        e.cursor.Spans (Assembly.callHead b index destination (.ofNat positional.length) ++
          Assembly.callMiddle positional count) stop →
        List.Forall₂ start.Resolves positional values →
        Limits.named < count.toNat →
        ∃ after, (start.moveTo stop).Looked after ∧
          m.step env = m.counted.settle env (.error (.tooManyNamed count.toNat)) after) := by
  intro start scope
  refine ⟨step_of_not_makesCall env m control, fun k => step_of_makesCall env m control, ?_, ?_⟩
  · intro budget b index count destination stop opcode bytes above
    have step := step_of_statement env m control bytes.atEnd budget
    have run := Action.statement_of_positional_lt scope (m := start) opcode bytes above
    refine ⟨_, (Moment.Looked.opened scope start).moveTo stop, step.trans ?_⟩
    rw [run]
  · intro budget b index count destination positional values stop opcode fits bytes resolved above
    have step := step_of_statement env m control bytes.atEnd budget
    obtain ⟨after, looked, run⟩ :=
      Action.statement_of_named_lt scope (m := start) opcode fits bytes resolved above
    refine ⟨after, looked, step.trans ?_⟩
    rw [run]

end

/-- A body with a call of the third native function that asks for 41 operands and has
none of them. -/
def overfilling : Execution := { showingFive with cursor := { code := #[0x60, 2, 41] } }

theorem step_fails_without_trace_overfilling :
    let env : Environment := ⟨{}, .standard⟩
    let session : Session := { world := { posts := { capacity := 0 } } }
    let full := ofExecution session showingFive
    let lacking := ofExecution session overfilling
    let k : ReadyCall :=
      ⟨2, .debug, none, [.ofPacked 5], [], { showingFive.cursor with offset := 9 }⟩
    (full.control = .execute showingFive ∧ full.MakesCall env showingFive k ∧
      (full.step env).session.nativeCalls = 1) ∧
    (lacking.control = .execute overfilling ∧ (¬ ∃ k, lacking.MakesCall env overfilling k) ∧
      session.SameCalls (lacking.step env).session ∧
      ∃ after, ((session.moment overfilling).moveTo { overfilling.cursor with offset := 3 }).Looked
          after ∧
        lacking.step env = lacking.counted.settle env (.error (.tooManyPositional 41)) after) := by
  intro env session full lacking k
  have resolved : (full.session.moment showingFive).Resolves ⟨.constant, 5⟩ (.ofPacked 5) := rfl
  have calls : full.MakesCall env showingFive k := by
    refine ⟨by decide,
      .intro (b := 0x60) ⟨rfl, rfl⟩ ?few ?few' ?bytes (.cons resolved .nil) .nil rfl⟩
    case few | few' => decide
    case bytes => exact ⟨[], [], rfl, rfl⟩
  have idle : ¬ ∃ k, lacking.MakesCall env overfilling k := by
    rintro ⟨k, -, ready⟩
    obtain ⟨positional, named, decoded⟩ := ready.decodes
    have refused : (Instruction.decode overfilling.cursor).1 = .error (.tooManyPositional 41) := rfl
    rw [show Instruction.decode overfilling.cursor = _ from decoded] at refused
    cases refused
  obtain ⟨-, called, -, -⟩ := step_fails_without_trace env full (e := showingFive) rfl
  obtain ⟨unmade, -, refused, -⟩ := step_fails_without_trace env lacking (e := overfilling) rfl
  refine ⟨⟨rfl, calls, (called k calls).1⟩, rfl, idle, (unmade idle).1, ?_⟩
  exact refused (by decide) 0x60 2 41 none _ ⟨rfl, rfl⟩ ⟨[], [], rfl, rfl⟩ (by decide)

end Machine

end MessageMachine
