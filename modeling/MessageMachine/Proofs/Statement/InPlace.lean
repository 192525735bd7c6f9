import MessageMachine.Proofs.Statement.Deferral
import MessageMachine.Proofs.Machine.Transition

/-!
# Execution in place

The machine and the disassembler read the same code in two ways.  `Machine.step_refines_decode` says
that they agree on every statement, whatever the bytes are.

A statement reads an opcode and goes on behind it, and so does decoding
(`Action.statement_of_found`).  What follows has been compared already: as one action for most
commands, and up to the order of readings and fetches for calls.  It remains to see that a statement
that cannot be decoded has done nothing but fetch operands, and that fetching leaves everything
alone that anyone could tell (`Moment.Looked`).
-/

namespace MessageMachine

/-! ## Statements -/

/-- The opcode at the cursor with its command, if there is a byte and it stands for a command. -/
def Cursor.opcode? (c : Cursor) : Option (Opcode × Command) :=
  match c.code[c.offset]? with
  | none => none
  | some b => (Command.ofCode? (Opcode.ofByte b).command).map fun command => (.ofByte b, command)

/-- The cursor behind an opcode. -/
def Cursor.behindOpcode (c : Cursor) : Cursor := { c with offset := c.offset + 1 }

/-- The operands that are read, before it ends or fails, by the reading of an instruction that
fetches them in turns. -/
def Instruction.parametersRead (c : Cursor) : List Operand :=
  match c.opcode? with
  | some (opcode, .call) => callParameters opcode c.behindOpcode
  | _ => []

namespace Action

/-- The moment at which an instruction has been recorded, if the settings ask for it. -/
def opened (scope : Scope) (m : Moment) : Moment :=
  match m.execution.cursor.opcode? with
  | none => m
  | some (opcode, command) =>
    if scope.environment.settings.traceInstructions then
      let place := m.execution.cursor.offset
      { m with
        world := m.world.log (.instruction m.execution.activation? place command opcode) }
    else m

/-- A statement reads an opcode, finds its command and goes on behind it. -/
theorem statement_run (scope : Scope) (m : Moment) :
    statement scope m =
      (reading Cursor.byte >>= fun b =>
        liftM ((Opcode.ofByte b).commandAt m.execution.cursor.offset) >>= fun command => do
          if scope.environment.settings.traceInstructions then
            log (.instruction (← position) m.execution.cursor.offset command (.ofByte b))
          rest scope (.ofByte b) command) m :=
  rfl

theorem decode_run (c : Cursor) :
    Instruction.decode c =
      (Cursor.byte >>= fun b =>
        liftM ((Opcode.ofByte b).commandAt c.offset) >>= fun command =>
          Instruction.decodeRest (.ofByte b) command) c :=
  rfl

/-- Without an opcode that stands for a command, a statement fails as decoding does. -/
theorem statement_of_missing (scope : Scope) {m : Moment}
    (missing : m.execution.cursor.opcode? = none) :
    ∃ f c, Instruction.decode m.execution.cursor = (.error f, c) ∧
      statement scope m = (.error f, m.moveTo c) := by
  have byte := Cursor.byte_run m.execution.cursor
  unfold Cursor.opcode? at missing
  rw [statement_run, decode_run]
  cases code : m.execution.cursor.code[m.execution.cursor.offset]? with
  | none =>
    rw [code] at byte
    exact ⟨_, _, bind_of_error byte, bind_of_error (reading_of_run byte)⟩
  | some b =>
    rw [code] at byte missing
    have unknown := Option.map_eq_none_iff.mp missing
    rw [bind_of_ok byte, bind_of_ok (reading_of_run byte), Opcode.commandAt, unknown]
    exact ⟨_, _, rfl, rfl⟩

/-- With an opcode that stands for a command, a statement goes on behind it, and
so does decoding. -/
theorem statement_of_found (scope : Scope) {m : Moment} {opcode : Opcode} {command : Command}
    (found : m.execution.cursor.opcode? = some (opcode, command)) :
    Instruction.decode m.execution.cursor =
        Instruction.decodeRest opcode command m.execution.cursor.behindOpcode ∧
      statement scope m =
        rest scope opcode command ((opened scope m).moveTo m.execution.cursor.behindOpcode) := by
  have byte := Cursor.byte_run m.execution.cursor
  rw [statement_run, decode_run, opened, found]
  unfold Cursor.opcode? at found
  cases code : m.execution.cursor.code[m.execution.cursor.offset]? with
  | none =>
    rw [code] at found
    cases found
  | some b =>
    rw [code] at byte found
    obtain ⟨command, known, pair⟩ := Option.map_eq_some_iff.mp found
    cases pair
    rw [bind_of_ok byte, bind_of_ok (reading_of_run byte), Opcode.commandAt, known]
    refine ⟨rfl, ?_⟩
    dsimp only
    cases scope.environment.settings.traceInstructions with
    | true => rfl
    | false => rfl

/-- **A statement that can be decoded** does what its instruction says. -/
theorem statement_agrees_of_ok (scope : Scope) {m : Moment} {i : Instruction} {c : Cursor}
    (decoded : Instruction.decode m.execution.cursor = (.ok i, c)) :
    Agrees (statement scope m) (perform scope i ((opened scope m).moveTo c)) := by
  cases found : m.execution.cursor.opcode? with
  | none =>
    obtain ⟨f, c', fails, -⟩ := statement_of_missing scope found
    rw [fails] at decoded
    cases decoded
  | some p =>
    obtain ⟨opcode, command⟩ := p
    obtain ⟨decode, execute⟩ := statement_of_found scope found
    rw [decode] at decoded
    rw [execute]
    by_cases call : command = .call
    · subst call
      exact call_agrees_of_ok scope (m := (opened scope m).moveTo _) decoded
    · rw [rest_eq_perform scope opcode call, bind_of_ok (reading_of_run decoded)]
      exact .refl _

/-- **A statement that cannot be decoded** fetches the operands that it reads and fails. -/
theorem statement_agrees_of_error (scope : Scope) {m : Moment} {f : Fault} {c : Cursor}
    (decoded : Instruction.decode m.execution.cursor = (.error f, c)) :
    Agrees (statement scope m)
      (((Instruction.parametersRead m.execution.cursor).mapM fetchOperand >>= fun _ =>
        (throw f : Action Next)) ((opened scope m).moveTo c)) := by
  cases found : m.execution.cursor.opcode? with
  | none =>
    obtain ⟨g, c', fails, execute⟩ := statement_of_missing scope found
    rw [fails] at decoded
    cases decoded
    rw [execute, Instruction.parametersRead, opened, found]
    exact .refl _
  | some p =>
    obtain ⟨opcode, command⟩ := p
    obtain ⟨decode, execute⟩ := statement_of_found scope found
    rw [decode] at decoded
    rw [execute, Instruction.parametersRead, found]
    by_cases call : command = .call
    · subst call
      exact call_agrees_of_error scope (m := (opened scope m).moveTo _) decoded
    · rw [rest_eq_perform scope opcode call, bind_of_error (reading_of_run decoded)]
      cases command with
      | call => exact absurd rfl call
      | _ => exact .refl _

end Action

/-! ## What fetching leaves alone -/

/-- At most the caches of objects and the journal are different. -/
structure Moment.Looked (m m' : Moment) : Prop where
  objects : m.world.objects.Rewritten (fun _ => False) m'.world.objects
  classes : m'.world.classes = m.world.classes
  posts : m'.world.posts = m.world.posts
  statistics : m'.statistics = m.statistics
  nativeCalls : m'.nativeCalls = m.nativeCalls
  execution : m'.execution = m.execution

namespace Moment.Looked

theorem refl (m : Moment) : m.Looked m := ⟨.refl _ _, rfl, rfl, rfl, rfl, rfl⟩

theorem trans {m m' m'' : Moment} (h : m.Looked m') (h' : m'.Looked m'') : m.Looked m'' :=
  ⟨h.objects.trans h'.objects, h'.classes.trans h.classes, h'.posts.trans h.posts,
    h'.statistics.trans h.statistics, h'.nativeCalls.trans h.nativeCalls,
    h'.execution.trans h.execution⟩

/-- The place of the execution does not matter. -/
theorem moveTo {m m' : Moment} (h : m.Looked m') (c : Cursor) :
    (m.moveTo c).Looked (m'.moveTo c) :=
  ⟨h.objects, h.classes, h.posts, h.statistics, h.nativeCalls,
    congrArg (fun e : Execution => { e with cursor := c }) h.execution⟩

theorem opened (scope : Scope) (m : Moment) : m.Looked (Action.opened scope m) := by
  unfold Action.opened
  split
  · exact refl m
  · split
    · exact ⟨.refl _ _, rfl, rfl, rfl, rfl, rfl⟩
    · exact refl m

theorem fetchOperand (o : Operand) (m : Moment) : m.Looked (Action.fetchOperand o m).2 := by
  obtain ⟨objects, e, h⟩ :=
    m.world.rewritten_read m.execution.receiver m.execution.frame o.kind o.data (fun _ => False)
  rw [Action.fetchOperand, Action.fetch_run, Action.fetched]
  generalize m.world.read m.execution.receiver m.execution.frame o.kind o.data = outcome at e
  obtain ⟨f | v, w⟩ := outcome
  · rw [show w = _ from e]
    exact ⟨h, rfl, rfl, rfl, rfl, rfl⟩
  · rw [show w = _ from e]
    dsimp only
    split <;> exact ⟨h, rfl, rfl, rfl, rfl, rfl⟩

instance : Std.Refl Moment.Looked := ⟨refl⟩

instance : IsTrans Moment Moment.Looked := ⟨fun _ _ _ => trans⟩

theorem within_fetchOperand (o : Operand) :
    Within Moment.Looked (fun _ => True) (Action.fetchOperand o) :=
  fun m => ⟨fetchOperand o m, fun _ _ => trivial⟩

theorem within_fetchNamed (n : NamedOperand) :
    Within Moment.Looked (fun _ => True) (Action.fetchNamed n) :=
  (within_fetchOperand n.operand).bind fun _ => .pure _

/-- Fetching several operands.  If it fails, the fetch of one of them has failed. -/
theorem fetchOperands (os : List Operand) {m m' : Moment} {x : Except Fault (List Value)}
    (run : os.mapM Action.fetchOperand m = (x, m')) :
    m.Looked m' ∧ ∀ f, x = .error f → ∃ o ∈ os, ∃ before, m.Looked before ∧
      Action.fetchOperand o before = (.error f, m') := by
  induction os generalizing m x with
  | nil =>
    rw [List.mapM_nil] at run
    cases run
    exact ⟨refl _, fun f h => by cases h⟩
  | cons o os ih =>
    rw [List.mapM_cons] at run
    have looked := fetchOperand o m
    generalize fetched : Action.fetchOperand o m = outcome at looked
    match outcome with
    | (.error f, m₁) =>
      rw [bind_of_error fetched] at run
      cases run
      exact ⟨looked, fun g hg => by cases hg; exact ⟨o, List.mem_cons_self, m, refl m, fetched⟩⟩
    | (.ok v, m₁) =>
      rw [bind_of_ok fetched] at run
      generalize others : os.mapM Action.fetchOperand m₁ = outcome at run
      match outcome with
      | (.error f, m₂) =>
        rw [bind_of_error others] at run
        cases run
        obtain ⟨looked', fails⟩ := ih others
        refine ⟨looked.trans looked', fun g hg => ?_⟩
        obtain ⟨o', mem, before, h, failed⟩ := fails g hg
        exact ⟨o', List.mem_cons_of_mem o mem, before, looked.trans h, failed⟩
      | (.ok vs, m₂) =>
        rw [bind_of_ok others] at run
        cases run
        exact ⟨looked.trans (ih others).1, fun g hg => by cases hg⟩

end Moment.Looked

theorem Instruction.mem_parametersRead {c : Cursor} {o : Operand} (h : o ∈ parametersRead c) :
    ∃ opcode, c.opcode? = some (opcode, .call) ∧ o ∈ callParameters opcode c.behindOpcode := by
  unfold parametersRead at h
  split at h
  · exact ⟨_, ‹_›, h⟩
  · cases h

/-- **A statement that cannot be decoded fails**, and leaves all but caches, the journal and its
own place as it was.  It fails as decoding does, or because it could not fetch an operand that
it read before. -/
theorem Action.statement_fails (scope : Scope) {m : Moment} {f : Fault} {c : Cursor}
    (decoded : Instruction.decode m.execution.cursor = (.error f, c)) :
    ∃ g after place, statement scope m = (.error g, after) ∧ (m.moveTo place).Looked after ∧
      (g = f ∨
        ∃ opcode, m.execution.cursor.opcode? = some (opcode, .call) ∧
          ∃ o ∈ Instruction.callParameters opcode m.execution.cursor.behindOpcode,
            ∃ before, m.Looked (before.moveTo m.execution.cursor) ∧
              (fetchOperand o before).1 = .error g) := by
  have agrees := statement_agrees_of_error scope decoded
  have opened := Moment.Looked.opened scope m
  generalize run : (Instruction.parametersRead m.execution.cursor).mapM fetchOperand
    ((Action.opened scope m).moveTo c) = outcome
  obtain ⟨looked, fails⟩ := Moment.Looked.fetchOperands _ run
  match outcome with
  | (.ok vs, after) =>
    rw [bind_of_ok run] at agrees
    obtain ⟨place, -, same, -⟩ := agrees.exists_place
    exact ⟨f, after.moveTo place, place, same, (opened.moveTo place).trans (looked.moveTo place),
      .inl rfl⟩
  | (.error g, after) =>
    rw [bind_of_error run] at agrees
    obtain ⟨place, -, same, -⟩ := agrees.exists_place
    obtain ⟨o, mem, before, unchanged, failed⟩ := fails g rfl
    obtain ⟨opcode, found, mem⟩ := Instruction.mem_parametersRead mem
    refine ⟨g, after.moveTo place, place, same, (opened.moveTo place).trans (looked.moveTo place),
      .inr ⟨opcode, found, o, mem, before, ?_, congrArg Prod.fst failed⟩⟩
    exact (opened.moveTo m.execution.cursor).trans (unchanged.moveTo m.execution.cursor)

/-! ## Bits that decoding ignores -/

/-- Decoding a call tells apart all modes that calls can have. -/
theorem Instruction.assignMode_eq_of_decodeCall_eq {o o' : Opcode}
    (h : decodeCall o = decodeCall o') : assignMode o.source₁ = assignMode o'.source₁ := by
  -- a call without operands, for a destination of any kind or none
  let sample : Cursor := { code := #[0, 0, 0, 0, 0, 0, 0] }
  let result (place : Option Place) : Instruction :=
    .call 0 (place.map (⟨·, wordOfBytes 0 0 0 0⟩)) [] []
  have run (o : Opcode) : (decodeCall o sample).1 = (assignMode o.source₁).map result := by
    unfold decodeCall
    generalize assignMode o.source₁ = mode
    match mode with
    | .ok none => rfl
    | .ok (some place) => rfl
    | .error f => rfl
  have same : (assignMode o.source₁).map result = (assignMode o'.source₁).map result := by
    rw [← run o, ← run o', h]
  generalize assignMode o.source₁ = mode at same
  generalize assignMode o'.source₁ = mode' at same
  match mode, mode' with
  | .ok none, .ok none => rfl
  | .ok (some place), .ok (some place') =>
    cases same
    rfl
  | .error f, .error f' =>
    cases same
    rfl
  | .ok none, .ok (some place) | .ok (some place), .ok none | .ok place, .error f
  | .error f, .ok place => cases same

/-- **Bits that decoding ignores do not matter.**  Opcodes that decode alike are executed alike. -/
theorem Action.rest_eq_of_decodeRest_eq (scope : Scope) {o o' : Opcode} {command : Command}
    (h : Instruction.decodeRest o command = Instruction.decodeRest o' command) :
    rest scope o command = rest scope o' command := by
  by_cases call : command = .call
  · subst call
    have mode := Instruction.assignMode_eq_of_decodeCall_eq h
    show Action.call scope o = Action.call scope o'
    unfold Action.call
    rw [mode]
  · rw [rest_eq_perform scope o call, rest_eq_perform scope o' call, h]

/-! ## One step of the machine -/

namespace Machine

/-- **Executing in place refines decoding and then executing.**  Let the machine be about to execute
a statement that is within the budget.

If the code at the cursor decodes, the step does what the decoded instruction says, from the cursor
behind it; when that fails, only the place of the failed execution is left open.

If the code does not decode, the step fails.  It has changed at most the caches of objects, the
journal and the place of the execution.  Its fault is the one that decoding gives, or that of
fetching an operand of a call that was read before.

Bits of the opcode that decoding ignores never matter, whether the instruction can be
read or not. -/
theorem step_refines_decode (env : Environment) (m : Machine) {e : Execution}
    (control : m.control = .execute e) (code : e.cursor.atEnd = false)
    (budget : m.session.statements < env.settings.maxStatements) :
    let scope := m.scope env (m.session.statements + 1)
    let start := Action.opened scope (m.session.moment e)
    (∀ i next, Instruction.decode e.cursor = (.ok i, next) →
      let outcome := Action.perform scope i (start.moveTo next)
      ∃ place : Cursor, place.code = outcome.2.execution.cursor.code ∧
        (∀ x, outcome.1 = .ok x → place = outcome.2.execution.cursor) ∧
        m.step env = m.counted.settle env outcome.1 (outcome.2.moveTo place)) ∧
    (∀ f stop, Instruction.decode e.cursor = (.error f, stop) →
      ∃ g after place,
        m.step env =
          { m.counted with
            session := m.counted.session.after after
            control := .abandon after.execution g } ∧
        ((m.session.moment e).moveTo place).Looked after ∧
        (g = f ∨
          ∃ opcode, e.cursor.opcode? = some (opcode, .call) ∧
            ∃ o ∈ Instruction.callParameters opcode e.cursor.behindOpcode,
              ∃ before, (m.session.moment e).Looked (before.moveTo e.cursor) ∧
                (Action.fetchOperand o before).1 = .error g)) ∧
    (∀ o o' command,
      (∀ c, Instruction.decodeRest o command c = Instruction.decodeRest o' command c) →
        Action.rest scope o command = Action.rest scope o' command) := by
  intro scope start
  have step : m.step env = m.counted.settle env (Action.statement scope (m.session.moment e)).1
      (Action.statement scope (m.session.moment e)).2 := by
    unfold Machine.step
    rw [control]
    exact execute_eq env m code budget
  refine ⟨?_, ?_, ?_⟩
  · intro i next decoded outcome
    obtain ⟨place, codePlace, same, stays⟩ :=
      (Action.statement_agrees_of_ok scope (m := m.session.moment e) decoded).exists_place
    rw [same] at step
    exact ⟨place, codePlace, stays, step⟩
  · intro f stop decoded
    obtain ⟨g, after, place, fails, looked, fault⟩ :=
      Action.statement_fails scope (m := m.session.moment e) decoded
    rw [fails] at step
    exact ⟨g, after, place, step, looked, fault⟩
  · intro o o' command alike
    exact Action.rest_eq_of_decodeRest_eq scope (funext alike)

/-- A body that shows the number 5 with the third native function, about to run in
an empty world. -/
def showingFive : Execution where
  receiver := ⟨0⟩
  codeStart := 0
  cursor := { code := #[0x60, 2, 1, 2, 5, 0, 0, 0, 0] }
  frame := { slots := #[], size_le := by decide }
  role := none

theorem step_refines_decode_showingFive :
    let env : Environment := ⟨{}, .standard⟩
    let m := ofExecution { world := { posts := { capacity := 0 } } } showingFive
    let start := Action.opened (m.scope env 1) (m.session.moment showingFive)
    m.control = .execute showingFive ∧ showingFive.cursor.atEnd = false ∧
      m.session.statements < env.settings.maxStatements ∧
      let outcome := Action.perform (m.scope env 1) (.call 2 none [⟨.constant, 5⟩] [])
        (start.moveTo { showingFive.cursor with offset := 9 })
      ∃ place : Cursor, place.code = outcome.2.execution.cursor.code ∧
        (∀ x, outcome.1 = .ok x → place = outcome.2.execution.cursor) ∧
        m.step env = m.counted.settle env outcome.1 (outcome.2.moveTo place) := by
  intro env m start
  obtain ⟨performs, -, -⟩ := step_refines_decode env m (e := showingFive) rfl rfl (by decide)
  exact ⟨rfl, rfl, by decide, performs _ _ rfl⟩

end Machine

end MessageMachine
