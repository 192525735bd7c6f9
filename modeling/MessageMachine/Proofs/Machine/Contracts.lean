import MessageMachine.Proofs.Statement.Contracts
import MessageMachine.Proofs.Statement.Continuity
import MessageMachine.Proofs.Machine.Budget
import MessageMachine.Proofs.Machine.Nesting
import MessageMachine.Proofs.Machine.Nil
import MessageMachine.Proofs.Machine.Lockstep

/-!
# Contracts for stretches of a run

`Machine.Brings env P c k Q` is a contract for the machine: from any state with `P` it comes to a
state with `Q`, and on the way it counts `c` statements and `k` handlers.  The budget is part of
the contract.  If it does not allow for so many statements, the run fails for it, and nothing is
said about where.

Contracts are put together by `Brings.trans`, which adds the counts up.  So the exact number of
statements of a program, and with it the point from which the budget does not suffice, comes out of
the same proof as its answer.

The states in question are of three kinds, each above some callers and in some scene: a handler
stands somewhere (`Works`), a send is about to be made (`Sends`), or a send has been answered
(`Answers`).  A statement takes the machine from one kind to the same or another one.  For a nested
send, the contract of the whole send is used above one caller more (`Brings.send`).
-/

namespace MessageMachine

namespace Machine

/-! ## Contracts -/

/-- From every state with `P` within the budget, the run comes to a state with `Q` when it
has counted `c` statements and `k` handlers more; or it fails, if the budget does not allow
for the statements. -/
def Brings (env : Environment) (P : Machine → Prop) (c k : Nat) (Q : Machine → Prop) : Prop :=
  ∀ m, P m → m.session.statements ≤ env.settings.maxStatements →
    (m.session.statements + c ≤ env.settings.maxStatements →
      ∃ m', m'.run env = m.run env ∧ Q m' ∧ m'.session.statements = m.session.statements + c ∧
        m'.session.statistics.messages = m.session.statistics.messages + .ofNat k) ∧
    (env.settings.maxStatements < m.session.statements + c →
      (m.run env).result = .error (.statementBudget env.settings.maxStatements))

namespace Brings

variable {env : Environment} {P Q R : Machine → Prop} {c c' k k' : Nat}

theorem refl (P : Machine → Prop) : Brings env P 0 0 P := fun m h within =>
  ⟨fun _ => ⟨m, rfl, h, rfl, (UInt64.add_zero _).symm⟩,
    fun beyond => absurd within (Nat.not_le_of_lt beyond)⟩

theorem trans (h : Brings env P c k Q) (h' : Brings env Q c' k' R) :
    Brings env P (c + c') (k + k') R := by
  intro m hm within
  obtain ⟨comes, fails⟩ := h m hm within
  by_cases enough : m.session.statements + c ≤ env.settings.maxStatements
  · obtain ⟨m', run', hm', statements', messages'⟩ := comes enough
    obtain ⟨comes', fails'⟩ := h' m' hm' (statements' ▸ enough)
    rw [statements', run', Nat.add_assoc] at fails'
    refine ⟨fun enough' => ?_, fails'⟩
    obtain ⟨m'', run'', hm'', statements'', messages''⟩ :=
      comes' (by rw [statements', Nat.add_assoc]; exact enough')
    refine ⟨m'', run''.trans run', hm'', ?_, ?_⟩
    · rw [statements'', statements', Nat.add_assoc]
    · rw [messages'', messages', UInt64.ofNat_add, UInt64.add_assoc]
  · have beyond := Nat.lt_of_not_le enough
    exact ⟨fun enough' => absurd enough' (by omega), fun _ => fails beyond⟩

/-- The counts may be written in another way. -/
theorem cast (h : Brings env P c k Q) (hc : c = c') (hk : k = k') : Brings env P c' k' Q := by
  subst hc hk
  exact h

/-- A step that counts no statement. -/
theorem of_step
    (step : ∀ m, P m → (m.step env).session.statements = m.session.statements ∧
      (m.step env).session.statistics.messages = m.session.statistics.messages + .ofNat k ∧
      Q (m.step env)) :
    Brings env P 0 k Q := by
  intro m hm within
  obtain ⟨statements, messages, hm'⟩ := step m hm
  exact ⟨fun _ => ⟨m.step env, run_step env m, hm', statements, messages⟩,
    fun beyond => absurd within (Nat.not_le_of_lt beyond)⟩

end Brings

/-! ## States -/

/-- A handler stands at `s`. -/
structure Works (callers : Callers) (s : Standing) (w : Scene) (m : Machine) : Prop where
  callers : m.callers = callers
  scene : m.session.world.scene = w
  control : ∃ e, m.control = .execute e ∧ e.standing = s ∧ e.role.isSome = true

/-- A send is about to be made. -/
structure Sends (callers : Callers) (send : Send) (w : Scene) (m : Machine) : Prop where
  callers : m.callers = callers
  scene : m.session.world.scene = w
  control : m.control = .dispatch send

/-- A handler for a send is about to be looked for in a class and above. -/
structure Seeks (callers : Callers) (send : Send) (start : ClassId) (w : Scene) (m : Machine) :
    Prop where
  callers : m.callers = callers
  scene : m.session.world.scene = w
  control : m.control = .seek send start false

/-- A handler that stands at `s` has made a send, whose answer is not kept. -/
def Calls (callers : Callers) (s : Standing) (send : Send) (w : Scene) (m : Machine) : Prop :=
  ∃ x : Execution, x.standing = s ∧ x.role.isSome = true ∧
    Sends (callers.push ⟨x, send, none⟩) send w m

/-- A send has been answered. -/
structure Answers (callers : Callers) (v : Value) (w : Scene) (m : Machine) : Prop where
  callers : m.callers = callers
  scene : m.session.world.scene = w
  control : m.control = .answer (.ok v)

end Machine

/-! ## Sends -/

namespace Machine.Brings

variable {env : Environment} {callers : Callers} {send : Send} {w : Scene}

/-- A send is let through. -/
theorem accept {o : Object} (named : send.arguments.length ≤ Limits.named)
    (depth : callers.depth < env.settings.maxDepth)
    (receiver : w.objects.get? send.receiver = some o) :
    Brings env (Sends callers send w) 0 0 (Seeks callers send o.classId w) := by
  refine of_step fun m h => ?_
  have receiver : m.session.world.objects.get? send.receiver = some o := by
    rw [← receiver, ← h.scene]
    rfl
  have step : m.step env = { m with control := .seek send o.classId false } := by
    rw [step, h.control]
    dsimp only
    rw [dispatch, if_neg (Nat.not_lt.mpr named), h.callers, if_neg (Nat.not_le.mpr depth), receiver]
  rw [step]
  exact ⟨rfl, (UInt64.add_zero _).symm, h.callers, h.scene, rfl⟩

/-- A handler is found, and begins to work. -/
theorem begin {start : ClassId} {cls : Class} {handler : Handler}
    (found : w.classes.findHandler start send.message = some (cls, handler)) :
    Brings env (Seeks callers send start w) 0 1
      (Works callers
        { receiver := send.receiver
          codeStart := handler.codeStart
          cursor := ⟨handler.body, handler.codeStart⟩
          locals := (handler.bind false send.arguments).values } w) := by
  refine of_step fun m h => ?_
  have found : m.session.world.classes.findHandler start send.message = some (cls, handler) := by
    rw [← found, ← h.scene]
    rfl
  have step : m.step env = m.begin send cls handler := by
    rw [step, h.control]
    dsimp only
    rw [seek, found]
  rw [step]
  refine ⟨rfl, rfl, h.callers, h.scene, _, rfl, ?_, rfl⟩
  exact congrArg (Standing.mk _ _ _) (handler.alike_bind _ false send.arguments)

/-- The handler that made a send goes on when it is answered. -/
theorem resume {x : Execution} {v : Value} (role : x.role.isSome = true) :
    Brings env (Answers (callers.push ⟨x, send, none⟩) v w) 0 0 (Works callers x.standing w) := by
  refine of_step fun m h => ?_
  have pop : m.callers.pop? = some (⟨x, send, none⟩, callers) := by
    rw [h.callers, Callers.pop?_push]
  have step : m.step env = { m with callers, control := .execute x } := by
    rw [Machine.step, h.control]
    dsimp only
    rw [answer_eq, pop]
    rfl
  rw [step]
  exact ⟨rfl, (UInt64.add_zero _).symm, rfl, h.scene, x, rfl, rfl, role⟩

end Machine.Brings

/-! ## Statements -/

theorem Session.Idle.scene {s s' : Session} (h : s.Idle s') : s'.world.scene = s.world.scene := by
  rw [World.scene, h.objects, h.classes, h.posts]
  rfl

/-- A handler that waits adds one to the depth. -/
theorem Callers.depth_push (cs : Callers) {c : Caller} (role : c.execution.role.isSome = true) :
    (cs.push c).depth = cs.depth + 1 := by
  obtain ⟨h, role⟩ := Option.isSome_iff_exists.mp role
  have activation : c.execution.activation? = some h.activation := by
    rw [Execution.activation?, role]
    rfl
  unfold push
  split
  · rfl
  · rename_i none
    rw [activation] at none
    cases none

theorem Cursor.atEnd_of_decode {c d : Cursor} {i : Instruction}
    (decoded : Instruction.decode c = (.ok i, d)) : c.atEnd = false := by
  cases ended : c.atEnd with
  | false => rfl
  | true =>
    obtain ⟨⟨f, fails⟩, -⟩ := decode_of_atEnd ended
    rw [decoded] at fails
    cases fails

namespace Machine

namespace Brings

variable {env : Environment} {Q : Machine → Prop} {k : Nat}

/-- A statement, counted if the budget allows for it. -/
theorem of_statement {callers : Callers} {s s' : Standing} {w w' : Scene} {i : Instruction}
    {behind : Cursor} {next : Next} (hn : env.natives.IsStandard)
    (decoded : Instruction.decode s.cursor = (.ok i, behind))
    (performs : ∀ scope : Scope, scope.environment = env →
      (Action.perform scope i).Yields (s.at behind) w next s' w')
    (settles : ∀ (m : Machine) (moment : Moment), m.callers = callers → moment.Shows s' w' →
      moment.execution.role.isSome = true →
      (m.settle env (.ok next) moment).session.statements = m.session.statements ∧
        (m.settle env (.ok next) moment).session.statistics.messages = moment.statistics.messages ∧
        Q (m.settle env (.ok next) moment)) :
    Brings env (Works callers s w) 1 0 Q := by
  rintro m ⟨rfl, scene, e, control, rfl, role⟩ within
  have code : e.cursor.atEnd = false := Cursor.atEnd_of_decode decoded
  have step : m.step env = m.execute env e := by rw [Machine.step, control]
  constructor
  · intro enough
    have budget : m.session.statements < env.settings.maxStatements := enough
    have shows : (m.session.moment e).Shows e.standing w := ⟨rfl, scene⟩
    obtain ⟨moment, run, shows'⟩ := Action.Yields.statement decoded
      (performs (m.scope env (m.session.statements + 1)) rfl) _ shows
    have continues : e.Continues moment.execution := Action.continues_statement run
    obtain ⟨statements, messages, hq⟩ := settles m.counted moment rfl shows'
      (continues.isSome_role ▸ role)
    have follows := ((Action.Tame.statement _ hn).of_run run).1
    have settled : m.step env = m.counted.settle env (.ok next) moment := by
      rw [step, execute_eq env m code budget, run]
    refine ⟨m.step env, run_step env m, ?_⟩
    rw [settled]
    exact ⟨hq, statements, messages.trans (follows.messages.trans (UInt64.add_zero _).symm)⟩
  · intro beyond
    rw [← run_step, step, execute_of_overrun env m code (by omega),
      result_eq_error_iff (isHalted_run _ _), (idle_run_of_aborts env _ rfl).2]
    rfl

section

variable {callers : Callers} {s s' : Standing} {w w' w'' : Scene} {behind : Cursor}
  (hn : env.natives.IsStandard)

include hn

/-- A statement after which the next one follows. -/
theorem proceed {i : Instruction} (decoded : Instruction.decode s.cursor = (.ok i, behind))
    (performs : ∀ scope : Scope, scope.environment = env →
      (Action.perform scope i).Yields (s.at behind) w .proceed s' w') :
    Brings env (Works callers s w) 1 0 (Works callers s' w') :=
  of_statement hn decoded performs fun _ _ callers shows role =>
    ⟨rfl, rfl, callers, shows.scene, _, rfl, shows.standing, role⟩

/-- A statement that ends the handler with a value. -/
theorem leave {o : Operand} {v : Value}
    (decoded : Instruction.decode s.cursor = (.ok (.leave o), behind))
    (value : o.valueIn (s.at behind) w = some v) :
    Brings env (Works callers s w) 1 0 (Answers callers v w) := by
  refine of_statement hn decoded (fun _ _ => .leave value) fun m moment callers shows role => ?_
  have idle := idle_leave env { m with session := m.session.after moment } moment.execution
    (.ok (.value v))
  have scene : (m.settle env (.ok (.leave (.value v))) moment).session.world.scene = w := by
    rw [← shows.scene]
    exact idle.scene
  obtain ⟨h, role⟩ := Option.isSome_iff_exists.mp role
  refine ⟨idle.statements, idle.messages, (callers_leave _ _ _ _).trans callers, scene, ?_⟩
  rw [settle, leave_handler env _ role]
  rfl

/-- A statement that makes a send, and does not keep the answer. -/
theorem await {i : Instruction} {send : Send}
    (decoded : Instruction.decode s.cursor = (.ok i, behind))
    (performs : ∀ scope : Scope, scope.environment = env →
      (Action.perform scope i).Yields (s.at behind) w (.await send none) s' w') :
    Brings env (Works callers s w) 1 0 (Calls callers s' send w') :=
  of_statement hn decoded performs fun _ moment callers shows role =>
    ⟨rfl, rfl, moment.execution, shows.standing, role, by rw [← callers]; rfl, shows.scene, rfl⟩

/-- **A nested send.**  What the whole send brings about above one caller more, the statement that
makes it brings about for its handler. -/
theorem send {i : Instruction} {send : Send} {v : Value} {c : Nat}
    (decoded : Instruction.decode s.cursor = (.ok i, behind))
    (performs : ∀ scope : Scope, scope.environment = env →
      (Action.perform scope i).Yields (s.at behind) w (.await send none) s' w')
    (nested : ∀ above : Callers, above.depth = callers.depth + 1 →
      Brings env (Sends above send w') c k (Answers above v w'')) :
    Brings env (Works callers s w) (1 + c) k (Works callers s' w'') := by
  have answered : Brings env (Calls callers s' send w') c k (Works callers s' w'') := by
    rintro m ⟨x, rfl, role, sends⟩
    have depth := callers.depth_push (c := ⟨x, send, none⟩) role
    exact ((nested _ depth).trans (resume role)) m sends
  exact ((await hn decoded performs).trans answered).cast rfl (Nat.zero_add k)

end

end Brings

end Machine

/-! ## Top-level sends -/

/-- **What a contract says about a top-level send.** -/
theorem Engine.send_of_brings (e : Engine) {send : Send} {v : Value} {w : Scene} {c k : Nat}
    (brings : Machine.Brings e.environment (Machine.Sends {} send e.beginSend.2.world.scene) c k
      (Machine.Answers {} v w)) :
    let result := (e.send send).1
    let after := (e.send send).2
    (c ≤ e.settings.maxStatements →
      result = .ok v ∧ after.world.scene = w ∧ after.statistics.last.statements = .ofNat c ∧
        after.statistics.messages = e.statistics.messages + .ofNat k) ∧
    (e.settings.maxStatements < c →
      result = .error (.statementBudget e.settings.maxStatements)) := by
  intro result after
  have start : Machine.Sends {} send e.beginSend.2.world.scene (e.start send) := ⟨rfl, rfl, rfl⟩
  obtain ⟨comes, fails⟩ := brings (e.start send) start (Nat.zero_le _)
  have zero : (e.start send).session.statements + c = c := Nat.zero_add c
  rw [zero] at comes fails
  refine ⟨fun enough => ?_, fails⟩
  obtain ⟨m, run, ⟨callers, scene, control⟩, statements, messages⟩ := comes enough
  have halts : (e.start send).run e.environment =
      { m with control := .halted (.ok (.value v)) none } := by
    rw [← run, ← Machine.run_step, Machine.step, control]
    dsimp only
    rw [Machine.answer_eq, callers]
    exact Machine.run_of_halted _ rfl
  have sent : e.send send = (.ok v, e.endSend send e.beginSend.1 m.session) := by
    rw [send_eq, halts]
    rfl
  have result_eq : result = .ok v := congrArg Prod.fst sent
  have after_eq : after = e.endSend send e.beginSend.1 m.session := congrArg Prod.snd sent
  rw [after_eq]
  exact ⟨result_eq, scene, congrArg UInt64.ofNat statements, messages⟩

end MessageMachine
