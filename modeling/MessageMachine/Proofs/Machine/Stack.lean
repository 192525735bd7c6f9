import MessageMachine.Proofs.Machine.Containment

/-!
# The stack of running handlers

The stack is read off the state of the machine: the handler at work, if there is one, on top of
those that wait.  `Transition.stack_move` says what a step can do to it.  A handler that begins is
pushed, one that ends is popped, and the one on top may have reached another line; everything below
the top is always left alone.

A handler begins only behind a check of the depth, or in the place of one that has handed its
message over.  So the stack stays within the limit of the settings (`Machine.Stacked`).  That a send
leaves the stack as it has found it needs no word about pushes and pops: the callers that wait are
the same when it is answered (`Machine.exists_answer`), and no handler is at work then.
-/

namespace MessageMachine

/-! ## Reading the stack off a state -/

namespace Callers

theorem activations_push {c : Caller} {x : Handling} (role : c.execution.role = some x)
    (cs : Callers) : (cs.push c).activations = x.activation :: cs.activations := by
  rw [(cs.push c).activations_eq, cs.activations_eq, list_push,
    List.filterMap_cons_some (b := x.activation)]
  rw [Execution.activation?, role]
  rfl

theorem activations_of_pop? {cs others : Callers} {c : Caller} {x : Handling}
    (pop : cs.pop? = some (c, others)) (role : c.execution.role = some x) :
    cs.activations = x.activation :: others.activations := by
  have same : cs = others.push c := ext_list ((list_of_pop? pop).trans (list_push c others).symm)
  rw [same, activations_push role]

/-- Callers that wait below others have their activations below. -/
theorem activations_suffix {cs cs' : Callers} (h : cs.list <:+ cs'.list) :
    cs.activations <:+ cs'.activations := by
  rw [cs.activations_eq, cs'.activations_eq]
  exact h.filterMap _

end Callers

namespace Machine

theorem stack_of_work {m : Machine} {e : Execution} {x : Handling}
    (work : m.control.execution? = some e) (role : e.role = some x) :
    m.stack = x.activation :: m.callers.activations := by
  have shown : e.stackOn m.callers.activations = x.activation :: m.callers.activations := by
    rw [Execution.stackOn, Execution.activation?, role]
    rfl
  rw [stack]
  cases control : m.control with
  | execute e' | abandon e' f =>
    rw [control] at work
    cases work
    exact shown
  | _ =>
    rw [control] at work
    cases work

theorem stack_of_idle {m : Machine} (idle : m.control.execution? = none) :
    m.stack = m.callers.activations := by
  rw [stack]
  cases control : m.control with
  | execute e | abandon e f =>
    rw [control] at idle
    cases idle
  | _ => rfl

/-- What waits at a state is part of its stack. -/
theorem activations_suffix_stack (m : Machine) : m.callers.activations <:+ m.stack := by
  cases work : m.control.execution? with
  | none => exact ⟨[], (stack_of_idle work).symm⟩
  | some e =>
    cases role : e.role with
    | some x =>
      rw [stack_of_work work role]
      exact List.suffix_cons _ _
    | none =>
      -- code on its own is not shown
      have alone : e.stackOn m.callers.activations = m.callers.activations := by
        rw [Execution.stackOn, Execution.activation?, role]
        rfl
      rw [stack]
      cases control : m.control with
      | execute e' | abandon e' f =>
        rw [control] at work
        cases work
        exact ⟨[], alone.symm⟩
      | _ => exact List.suffix_refl _

/-- A handler that has ended is not on the stack any more. -/
theorem stack_leave (env : Environment) (m : Machine) (e : Execution)
    (result : Except Fault Ending) : (m.leave env e result).stack = m.callers.activations := by
  rw [stack_of_idle (execution?_leave env m e result), callers_leave]

end Machine

/-! ## One step -/

/-- What a step does to a stack that may grow to `ceiling`. -/
inductive StackMove (ceiling : Nat) : List Activation → List Activation → Prop
  | stay (stack : List Activation) : StackMove ceiling stack stack
  /-- A handler begins. -/
  | push (a : Activation) {stack : List Activation} (room : stack.length < ceiling) :
    StackMove ceiling stack (a :: stack)
  /-- The innermost handler ends. -/
  | pop (a : Activation) (stack : List Activation) : StackMove ceiling (a :: stack) stack
  /-- The innermost handler reaches a line. -/
  | line (a : Activation) (line : UInt32) (stack : List Activation) :
    StackMove ceiling (a :: stack) ({ a with line } :: stack)

theorem StackMove.length_le {ceiling : Nat} {stack stack' : List Activation}
    (h : StackMove ceiling stack stack') (within : stack.length ≤ ceiling) :
    stack'.length ≤ ceiling := by
  cases h with
  | stay => exact within
  | push a room => exact room
  | pop a => exact Nat.le_of_succ_le within
  | line a line => exact within

/-- Only handlers are active, they are no more than the settings allow, and there is room for one
more when one is looked for. -/
structure Machine.Stacked (env : Environment) (m : Machine) : Prop where
  handlers : ∀ x ∈ m.active, x.role.isSome = true
  within : m.depth ≤ env.settings.maxDepth
  room : ∀ send start again, m.control = .seek send start again → m.depth < env.settings.maxDepth

namespace Machine.Stacked

variable {env : Environment} {m : Machine}

/-- The handler at work. -/
theorem exists_work (h : m.Stacked env) {e : Execution} (work : m.control.execution? = some e) :
    ∃ x, e.role = some x ∧ m.stack = x.activation :: m.callers.activations := by
  obtain ⟨x, role⟩ := Option.isSome_iff_exists.mp (h.handlers e (mem_active_of_work work))
  exact ⟨x, role, stack_of_work work role⟩

/-- The innermost handler that waits. -/
theorem exists_waiting (h : m.Stacked env) {c : Caller} {others : Callers}
    (pop : m.callers.pop? = some (c, others)) :
    ∃ x, c.execution.role = some x ∧
      m.callers.activations = x.activation :: others.activations := by
  have mem : c ∈ m.callers.list := by
    rw [Callers.list_of_pop? pop]
    exact List.mem_cons_self
  obtain ⟨x, role⟩ := Option.isSome_iff_exists.mp (h.handlers c.execution (mem_active_of_waits mem))
  exact ⟨x, role, Callers.activations_of_pop? pop role⟩

end Machine.Stacked

namespace Transition

variable {env : Environment} {m m' : Machine}

/-- **What a step does to the stack.** -/
theorem stack_move (hn : env.natives.IsStandard) (t : Transition env m m') (h : m.Stacked env) :
    StackMove env.settings.maxDepth m.stack m'.stack := by
  have rest (idle : m.control.execution? = none) (idle' : m'.control.execution? = none)
      (callers : m'.callers = m.callers) : StackMove env.settings.maxDepth m.stack m'.stack := by
    rw [Machine.stack_of_idle idle, Machine.stack_of_idle idle', callers]
    exact .stay _
  -- the handler at work is not affected
  have works {e : Execution} (work : m.control.execution? = some e)
      (work' : m'.control.execution? = some e) (callers : m'.callers = m.callers) :
      StackMove env.settings.maxDepth m.stack m'.stack := by
    obtain ⟨x, role, stack⟩ := h.exists_work work
    rw [stack, Machine.stack_of_work work' role, callers]
    exact .stay _
  -- the handler at work goes on
  have follows {e : Execution} {x : Except Fault Next} {moment : Moment}
      (control : m.control = .execute e)
      (outcome : Action.statement (m.scope env (m.session.statements + 1)) (m.session.moment e) =
        (x, moment))
      (stack' : ∀ h, moment.execution.role = some h →
        m'.stack = h.activation :: m.callers.activations) :
      StackMove env.settings.maxDepth m.stack m'.stack := by
    obtain ⟨x, role, stack⟩ := h.exists_work (e := e) (by rw [control]; rfl)
    have continues := ((Action.Tame.statement _ hn).of_run outcome).1.execution
    obtain ⟨line, role'⟩ := continues.exists_line role
    rw [stack, stack' _ role']
    exact .line x.activation line _
  -- the innermost handler that waits goes on
  have resumes {c : Caller} {callers : Callers} {e : Execution} {r : Except Fault Value}
      (control : m.control = .answer r) (pop : m.callers.pop? = some (c, callers))
      (continues : c.execution.Continues e) (work' : m'.control.execution? = some e)
      (callers' : m'.callers = callers) : StackMove env.settings.maxDepth m.stack m'.stack := by
    obtain ⟨x, role, stack⟩ := h.exists_waiting pop
    obtain ⟨line, role'⟩ := continues.exists_line role
    rw [Machine.stack_of_idle (by rw [control]; rfl), stack, Machine.stack_of_work work' role',
      callers']
    exact .line x.activation line _
  have leaves {e : Execution} (work : m.control.execution? = some e)
      (stack' : m'.stack = m.callers.activations) :
      StackMove env.settings.maxDepth m.stack m'.stack := by
    obtain ⟨x, role, stack⟩ := h.exists_work work
    rw [stack, stack']
    exact .pop _ _
  cases t with
  | reject control | accept control | miss control | exhaust control | halt control =>
    exact rest (by rw [control]; rfl) rfl rfl
  | begin control found =>
    have idle : m.control.execution? = none := by
      rw [control]
      rfl
    have room := h.room _ _ _ control
    rw [Machine.depth, Machine.stack_of_idle idle] at room
    rw [Machine.stack_of_idle idle]
    exact Machine.stack_of_work (m := Machine.begin ..) rfl rfl ▸ .push _ room
  | runOff control | overrun control => exact works (by rw [control]; rfl) rfl rfl
  | fail control _ _ outcome | proceed control _ _ outcome =>
    exact follows control outcome fun _ role => Machine.stack_of_work rfl role
  | await control _ _ outcome =>
    refine follows control outcome fun _ role => ?_
    rw [Machine.stack_of_idle rfl]
    exact Callers.activations_push role m.callers
  | finish control => exact leaves (by rw [control]; rfl) (Machine.stack_leave env _ _ _)
  | abandon control => exact leaves (by rw [control]; rfl) (Machine.stack_leave env _ _ _)
  | resume control pop _ outcome | misfit control pop _ outcome =>
    exact resumes control pop ((Action.Tame.assignIf _ _).of_run outcome).1.execution rfl rfl
  | abort control pop => exact resumes control pop (.refl _) rfl rfl

/-- A handler is looked for behind a check of the depth, or in the place of one that has ended. -/
theorem room_of_seek (t : Transition env m m') (h : m.Stacked env) {send : Send} {start : ClassId}
    {again : Bool} (seeks : m'.control = .seek send start again) :
    m'.depth < env.settings.maxDepth := by
  have leaves {e : Execution} (work : m.control.execution? = some e)
      (stack' : m'.stack = m.callers.activations) : m'.depth < env.settings.maxDepth := by
    obtain ⟨x, -, stack⟩ := h.exists_work work
    have within := h.within
    rw [Machine.depth, stack] at within
    rw [Machine.depth, stack']
    exact within
  cases t with
  | accept control named depth =>
    rw [Machine.depth, Machine.stack_of_idle rfl, ← m.callers.depth_eq]
    exact depth
  | finish control => exact leaves (by rw [control]; rfl) (Machine.stack_leave env _ _ _)
  | abandon control => exact leaves (by rw [control]; rfl) (Machine.stack_leave env _ _ _)
  | reject | begin | miss | exhaust | runOff | overrun | fail | proceed | await | halt | resume
  | misfit | abort => cases seeks

end Transition

namespace Machine

variable {env : Environment}

/-- **Every step keeps the stack within the limit.** -/
theorem Stacked.step (hn : env.natives.IsStandard) {m : Machine} (hm : m.control.isHalted = false)
    (h : m.Stacked env) : (m.step env).Stacked env := by
  have t := transition_step env m hm
  exact ⟨t.handlers h.handlers, (t.stack_move hn h).length_le h.within,
    fun _ _ _ => t.room_of_seek h⟩

theorem stacked_ofSend (env : Environment) (session : Session) (send : Send) :
    (ofSend session send).Stacked env :=
  ⟨fun _ h => (by cases h), Nat.zero_le _, fun _ _ _ h => (by cases h)⟩

/-! ## One send -/

/-- **A send leaves the stack as it has found it**, however it ends.  Meanwhile whoever waits goes
on waiting, and nobody touches the stack below it. -/
theorem stack_of_answer {m : Machine} {send : Send}
    (control : m.control = .dispatch send) :
    ∃ answered r, answered.control = .answer r ∧ answered.callers = m.callers ∧
      answered.stack = m.stack ∧
      Leads env (fun s => m.callers.list <:+ s.callers.list ∧ m.stack <:+ s.stack) m answered := by
  have idle : m.control.execution? = none := by
    rw [control]
    rfl
  have serving : m.Serving := by
    constructor
    · rw [control]
      rfl
    · intro x hx
      rw [idle] at hx
      cases hx
  obtain ⟨answered, r, answer, callers, leads⟩ := exists_answer m serving
  refine ⟨answered, r, answer, callers, ?_, leads.mono fun s waits => ⟨waits, ?_⟩⟩
  · rw [stack_of_idle idle, stack_of_idle (by rw [answer]; rfl), callers]
  · rw [stack_of_idle idle]
    exact (Callers.activations_suffix waits).trans s.activations_suffix_stack

/-- A send that finds as many handlers at work as may be is refused. -/
theorem step_of_deep {m : Machine} {send : Send} (control : m.control = .dispatch send)
    (named : send.arguments.length ≤ Limits.named) (deep : m.depth = env.settings.maxDepth) :
    m.step env = m.refuse (.recursionLimit env.settings.maxDepth) := by
  have depth : m.callers.depth = env.settings.maxDepth := by
    rw [m.callers.depth_eq, ← stack_of_idle (by rw [control]; rfl)]
    exact deep
  unfold step
  rw [control]
  dsimp only [dispatch]
  rw [if_neg (Nat.not_lt_of_le named), depth, if_pos (Nat.le_refl _)]

/-- The statistics do not change when a send is refused. -/
theorem statistics_refuse (m : Machine) (f : Fault) :
    (m.refuse f).session.statistics = m.session.statistics := by
  show (m.session.report _ f).statistics = _
  unfold Session.report
  split <;> rfl

theorem stack_refuse {m : Machine} (idle : m.control.execution? = none) (f : Fault) :
    (m.refuse f).stack = m.stack := by
  rw [stack_of_idle idle, stack_of_idle rfl]
  rfl

/-- The step from a state in which a handler is looked for pushes one handler at most. -/
theorem stack_of_seek {m : Machine} {send : Send} {start : ClassId} {again : Bool}
    (control : m.control = .seek send start again) :
    (m.step env).stack = m.stack ∨ ∃ a, (m.step env).stack = a :: m.stack := by
  have idle : m.control.execution? = none := by
    rw [control]
    rfl
  have t := transition_step env m (by rw [control]; rfl)
  generalize m.step env = m' at t
  cases t with
  | begin control' found =>
    rw [stack_of_idle idle]
    exact .inr ⟨_, stack_of_work rfl rfl⟩
  | miss => exact .inl (stack_refuse idle _)
  | exhaust =>
    rw [stack_of_idle idle]
    exact .inl (stack_of_idle rfl)
  | reject control' | accept control' | runOff control' | overrun control' | fail control'
  | proceed control' | await control' | finish control' | abandon control' | halt control'
  | resume control' | misfit control' | abort control' =>
    rw [control] at control'
    cases control'

/-- A handler that hands its message over is popped. -/
theorem Stacked.stack_of_handOver {m : Machine} (h : m.Stacked env) {e : Execution} {send : Send}
    {start : ClassId} {again : Bool} (control : m.control = .execute e)
    (seeks : (m.step env).control = .seek send start again) :
    ∃ a, m.stack = a :: (m.step env).stack := by
  obtain ⟨x, -, stack⟩ := h.exists_work (e := e) (by rw [control]; rfl)
  have t := transition_step env m (by rw [control]; rfl)
  generalize m.step env = m' at t seeks
  cases t with
  | finish =>
    rw [stack_leave]
    exact ⟨_, stack⟩
  | reject control' | accept control' | begin control' | miss control' | exhaust control'
  | abandon control' | halt control' | resume control' | misfit control' | abort control' =>
    rw [control] at control'
    cases control'
  | runOff | overrun | fail | proceed | await => cases seeks

end Machine

/-! ## Top-level sends -/

namespace Engine

theorem stacked_of_mem (e : Engine) (hn : e.natives.IsStandard) {send : Send} {m : Machine}
    (h : m ∈ e.states send) : m.Stacked e.environment :=
  Machine.trace_invariant (P := Machine.Stacked e.environment) e.environment
    (fun _ hm h => h.step hn hm) _ (Machine.stacked_ofSend _ _ send) m h

/-- **The stack of handlers in a top-level send.**  Let the natives be standard.

The stack never holds more handlers than the settings allow, and a step touches its top at most: it
pushes a handler, pops one, or notes the line that the innermost one has reached.

Every send that is checked, nested ones and the one from the top alike, is answered with the stack
as it was at the check.  Until then the executions that wait for it go on waiting, with none but
others above them, and this stack stays below whatever runs.

A send with few enough arguments that finds as many handlers at work as the settings allow is
answered at once with that fault.  The stack is the same, and nothing has been executed or counted.

When a handler hands its message over, it is popped before the next one is looked for; so the next
one runs no deeper than it did. -/
theorem send_keeps_stack (e : Engine) (hn : e.natives.IsStandard) (send : Send) :
    let env := e.environment
    let ceiling := e.settings.maxDepth
    (∀ m ∈ e.states send, m.depth ≤ ceiling ∧
      (m.control.isHalted = false → StackMove ceiling m.stack (m.step env).stack)) ∧
    (∀ m ∈ e.states send, ∀ inner, m.control = .dispatch inner →
      (∃ answered r, answered.control = .answer r ∧ answered.callers = m.callers ∧
        answered.stack = m.stack ∧
        Machine.Leads env (fun s => m.callers.list <:+ s.callers.list ∧ m.stack <:+ s.stack) m
          answered) ∧
      (inner.arguments.length ≤ Limits.named → m.depth = ceiling →
        (m.step env).control = .answer (.error (.recursionLimit ceiling)) ∧
        (m.step env).stack = m.stack ∧
        (m.step env).session.statistics = m.session.statistics ∧
        m.session.Idle (m.step env).session)) ∧
    (∀ m ∈ e.states send, ∀ x inner start again, m.control = .execute x →
      (m.step env).control = .seek inner start again →
      let below := (m.step env).stack
      let next := ((m.step env).step env).stack
      (∃ a, m.stack = a :: below) ∧ (next = below ∨ ∃ a, next = a :: below)) := by
  intro env ceiling
  refine ⟨fun m hm => ?_, fun m hm inner control => ⟨Machine.stack_of_answer control, ?_⟩, ?_⟩
  · have h := e.stacked_of_mem hn hm
    exact ⟨h.within, fun running => (Machine.transition_step env m running).stack_move hn h⟩
  · intro named deep
    have idle : m.control.execution? = none := by
      rw [control]
      rfl
    rw [Machine.step_of_deep control named deep]
    exact ⟨rfl, Machine.stack_refuse idle _, m.statistics_refuse _, m.idle_refuse _⟩
  · intro m hm x inner start again control seeks
    exact ⟨(e.stacked_of_mem hn hm).stack_of_handOver control seeks, Machine.stack_of_seek seeks⟩

/-- An engine that runs one handler at a time.  Its class is a superclass of itself, and the handler
for message 1 sends its object message 1, notes what it sees, and hands the message over. -/
def climbing : Engine :=
  (ofClass { maxDepth := 1, maxStatements := 5 }
    { id := ⟨1⟩
      name := "Climbing"
      parent := some ⟨1⟩
      handlers := (Handler.ofBody ⟨1⟩ "Climb"
        #[1, 0, 0x64, 0, 0, 0, 0, 0, 2, 2, 0, 0, 0, 0x20, 2, 1, 0, 0, 0xB0, 0,
          0x80]).toOption.toList }).2

theorem send_keeps_stack_climbing :
    climbing.natives.IsStandard ∧
      (∃ m ∈ climbing.states ⟨⟨0⟩, ⟨1⟩, []⟩, ∃ inner, m.control = .dispatch inner ∧
        inner.arguments = [] ∧ m.depth = 1 ∧
        (m.step climbing.environment).control = .answer (.error (.recursionLimit 1)) ∧
        (m.step climbing.environment).session.statistics = m.session.statistics) ∧
      ∃ m ∈ climbing.states ⟨⟨0⟩, ⟨1⟩, []⟩, ∃ x inner start again, m.control = .execute x ∧
        (m.step climbing.environment).control = .seek inner start again ∧
        StackMove 1 m.stack (m.step climbing.environment).stack ∧
        ∃ a, m.stack = a :: (m.step climbing.environment).stack := by
  have natives : climbing.natives.IsStandard := NativeTable.isStandard_standard
  let state (n : Nat) := (Machine.step climbing.environment)^[n] (climbing.start ⟨⟨0⟩, ⟨1⟩, []⟩)
  have mem (n : Nat) : state n ∈ climbing.states ⟨⟨0⟩, ⟨1⟩, []⟩ :=
    Machine.iterate_mem_trace climbing.environment n _
  -- the handler sends its object a message, and then hands its own message over
  have sends : ∃ inner, (state 3).control = .dispatch inner ∧ inner.arguments = [] := by
    have shown : (match (state 3).control with
        | .dispatch inner => inner.arguments.isEmpty
        | _ => false) = true := by decide +kernel
    generalize (state 3).control = c at shown
    cases c with
    | dispatch inner => exact ⟨inner, rfl, List.isEmpty_iff.mp shown⟩
    | _ => cases shown
  have works : ∃ x, (state 5).control = .execute x := by
    have rank : (state 5).control.rank = 3 := by decide +kernel
    generalize (state 5).control = c at rank
    cases c with
    | execute x => exact ⟨x, rfl⟩
    | _ => cases rank
  have seeks : ∃ inner start again, ((state 5).step climbing.environment).control =
      .seek inner start again := by
    have rank : ((state 5).step climbing.environment).control.rank = 4 := by decide +kernel
    generalize ((state 5).step climbing.environment).control = c at rank
    cases c with
    | seek inner start again => exact ⟨inner, start, again, rfl⟩
    | _ => cases rank
  have deep : (state 3).depth = 1 := by decide +kernel
  obtain ⟨sent, sends, bare⟩ := sends
  obtain ⟨x, works⟩ := works
  obtain ⟨inner, start, again, seeks⟩ := seeks
  obtain ⟨moves, refused, handsOver⟩ := send_keeps_stack climbing natives ⟨⟨0⟩, ⟨1⟩, []⟩
  obtain ⟨answered, -, quiet, -⟩ :=
    (refused _ (mem 3) sent sends).2 (by rw [bare]; exact Nat.zero_le _) deep
  exact ⟨natives, ⟨_, mem 3, sent, sends, bare, deep, answered, quiet⟩, _, mem 5, x, inner, start,
    again, works, seeks, (moves _ (mem 5)).2 (by rw [works]; rfl),
    (handsOver _ (mem 5) x inner start again works seeks).1⟩

end Engine

end MessageMachine
