import MessageMachine.Proofs.Lineage
import MessageMachine.Proofs.Machine.Addressing
import MessageMachine.Proofs.Machine.Dispatch
import MessageMachine.Proofs.Machine.Stack

/-!
# Naming what runs

Diagnostics name a running handler by the class that defines it, which need not be the class of the
receiver: the handler may be inherited, or run because one further down has handed its message over.
`Engine.stack_named` says that such a name is always there to be found.  Whatever handler is on the
stack, the directory holds its class, and the class itself defines the message.

What is carried along a run is `Handling.Placed`: where a handler comes from.  Its class stands on
the superclass chain of the class from which its send started out, and keeps its place there when it
hands the message over, since the search goes on at its superclass.  The chain may run in a circle,
so it is not a list here but a relation (`Directory.Above`).

A native function could take classes out of the directory while their handlers run.  The standard
ones do not, and this is where they are needed.
-/

namespace MessageMachine

/-! ## Standing above a class -/

namespace Directory

/-- The superclass chain of `start`, as far as the directory holds it, leads to a class. -/
inductive Above (d : Directory) (start : ClassId) : ClassId → Prop where
  | self : d.Above start start
  | parent {id parent : ClassId} {c : Class} (below : d.Above start id) (held : d.get? id = some c)
    (next : c.parent = some parent) : d.Above start parent

variable {d : Directory} {start id : ClassId} {message : MessageId} {c : Class} {h : Handler}

/-- What a search finds stands above the class at which it began, is held under its own number, and
defines the message itself. -/
theorem above_of_findUpwards {steps : Nat} (above : d.Above start id)
    (found : d.findUpwards message steps id = some (c, h)) :
    d.Above start c.id ∧ d.get? c.id = some c ∧ c.handler? message = some h := by
  induction steps generalizing id with
  | zero => cases found
  | succ steps ih =>
    unfold findUpwards at found
    cases held : d.get? id with
    | none =>
      rw [held] at found
      cases found
    | some b =>
      rw [held] at found
      dsimp only at found
      cases defines : b.handler? message with
      | some g =>
        rw [defines] at found
        cases found
        have number := id_of_get? held
        subst number
        exact ⟨above, held, defines⟩
      | none =>
        rw [defines] at found
        cases next : b.parent with
        | none =>
          rw [next] at found
          cases found
        | some parent =>
          rw [next] at found
          exact ih (above.parent held next) found

/-- A handler that is shown under the names of its class and its message. -/
theorem activationName_eq {a : Activation} (held : d.get? a.cls = some c)
    (defines : c.handler? a.message = some h) :
    d.activationName a =
      "[" ++ c.name ++ " " ++ h.name ++ " (line " ++ toString a.line ++ ")]" := by
  have cls : d.className a = c.name := by rw [className, held]
  have handler : d.handlerName a = h.name := by
    rw [handlerName, held, Option.bind_some, defines]
  rw [activationName, cls, handler]

end Directory

/-- Writes leave objects in their classes. -/
theorem Population.Rewritten.classId_eq {touched : Nat → Prop} {p p' : Population}
    (h : p.Rewritten touched p') (id : ObjectId) :
    (p'.get? id).map Object.classId = (p.get? id).map Object.classId := by
  have shape := h.shape id.number.toNat
  unfold get?
  cases before : p.slots[id.number.toNat]? with
  | none =>
    rw [before] at shape
    rw [Option.map_eq_none_iff.mp shape]
  | some o =>
    rw [before] at shape
    obtain ⟨o', after, same⟩ := Option.map_eq_some_iff.mp shape
    simp only [Object.shape, Prod.mk.injEq] at same
    obtain ⟨-, classId, deleted, -⟩ := same
    rw [after, Option.filter_some, Option.filter_some, deleted]
    split
    · exact congrArg some classId
    · rfl

/-! ## Where a handler comes from -/

/-- The handler at work is the one that its class defines for the message, and the class stands
above one from which the send may start out. -/
structure Handling.Placed (d : Directory) (starts : Send → ClassId → Prop) (x : Handling)
    (e : Execution) (c : Class) (h : Handler) : Prop where
  held : d.get? x.cls = some c
  defines : c.handler? x.send.message = some h
  parent : c.parent = x.parent
  receiver : e.receiver = x.send.receiver
  codeStart : e.codeStart = h.codeStart
  code : e.cursor.code = h.body
  above : ∃ start, starts x.send start ∧ d.Above start x.cls

/-- Each handler at work or waiting has its place in the directory `d`, and a handler is looked for
above a class from which the send may start out. -/
structure Machine.Named (d : Directory) (starts : Send → ClassId → Prop) (m : Machine) : Prop where
  classes : m.session.world.classes = d
  active : ∀ e ∈ m.active, ∃ x c h, e.role = some x ∧ x.Placed d starts e c h
  seek : ∀ send id again, m.control = .seek send id again →
    ∃ start, starts send start ∧ d.Above start id

variable {env : Environment} {m m' : Machine} {d : Directory}
  {starts starts' : Send → ClassId → Prop}

/-- A handler that goes on keeps its place. -/
theorem Handling.Placed.continues {x : Handling} {e e' : Execution} {c : Class} {h : Handler}
    (placed : x.Placed d starts e c h) (continues : e.Continues e') (line : UInt32) :
    Handling.Placed d starts { x with line } e' c h :=
  { placed with
    receiver := continues.receiver.trans placed.receiver
    codeStart := continues.codeStart.trans placed.codeStart
    code := continues.code.trans placed.code }

theorem Machine.Named.mono (h : m.Named d starts) (sub : ∀ send start, starts send start →
    starts' send start) : m.Named d starts' := by
  refine ⟨h.classes, fun e he => ?_, fun send id again control => ?_⟩
  · obtain ⟨x, c, handler, role, placed⟩ := h.active e he
    obtain ⟨start, known, above⟩ := placed.above
    exact ⟨x, c, handler, role, { placed with above := ⟨start, sub _ _ known, above⟩ }⟩
  · obtain ⟨start, known, above⟩ := h.seek send id again control
    exact ⟨start, sub _ _ known, above⟩

/-- A handler that ends and has the search go on has it go on at the superclass of its class. -/
theorem Machine.parent_of_leave {e : Execution} {result : Except Fault Ending} {send : Send}
    {id : ClassId} {again : Bool} (seeks : (m.leave env e result).control = .seek send id again) :
    ∃ x, e.role = some x ∧ x.send = send ∧ x.parent = some id := by
  cases role : e.role with
  | none =>
    rw [leave_alone env m role] at seeks
    cases seeks
  | some x =>
    rw [leave_handler env m role] at seeks
    have seeks : x.followUp result = .seek send id again := seeks
    match result with
    | .error f | .ok (.value v) => cases seeks
    | .ok .handOver =>
      unfold Handling.followUp at seeks
      cases parent : x.parent with
      | none =>
        rw [parent] at seeks
        cases seeks
      | some p =>
        rw [parent] at seeks
        cases seeks
        exact ⟨x, rfl, rfl, parent⟩

/-- **A step keeps handlers in their places**, as long as a send that is let through may start out
from the class of its receiver. -/
theorem Transition.named (hn : env.natives.IsStandard) (t : Transition env m m')
    (h : m.Named d starts)
    (checks : ∀ send o, m.control = .dispatch send →
      m.session.world.objects.get? send.receiver = some o → starts send o.classId) :
    m'.Named d starts := by
  refine ⟨(t.rewritten hn).classes.trans h.classes, fun e he => ?_, fun send id again seeks => ?_⟩
  · rcases t.active_cases e he with
      ⟨y, hy, continues⟩ | ⟨send, id, again, cls, handler, frame, started, control, found, rfl⟩
    · obtain ⟨x, c, handler, role, placed⟩ := h.active y hy
      obtain ⟨line, role'⟩ := continues.exists_line role
      exact ⟨_, c, handler, role', placed.continues continues line⟩
    · obtain ⟨start, known, above⟩ := h.seek send id again control
      rw [h.classes] at found
      obtain ⟨above, held, defines⟩ := Directory.above_of_findUpwards above found
      exact ⟨_, cls, handler, rfl, ⟨held, defines, rfl, rfl, rfl, rfl, start, known, above⟩⟩
  · -- the superclass of a class above another one is above that one too
    have handsOver {e e' : Execution} {x' : Handling} (he : e ∈ m.active)
        (continues : e.Continues e') (role : e'.role = some x') (parent : x'.parent = some id) :
        ∃ start, starts x'.send start ∧ d.Above start id := by
      obtain ⟨x, c, handler, before, placed⟩ := h.active e he
      obtain ⟨line, after⟩ := continues.exists_line before
      rw [role] at after
      cases after
      obtain ⟨start, known, above⟩ := placed.above
      exact ⟨start, known, above.parent placed.held (placed.parent.trans parent)⟩
    cases t with
    | accept control _ _ receiver =>
      cases seeks
      exact ⟨_, checks send _ control receiver, .self⟩
    | finish control _ _ outcome =>
      obtain ⟨x, role, rfl, parent⟩ := Machine.parent_of_leave seeks
      exact handsOver (Machine.mem_active_of_work (by rw [control]; rfl))
        (Action.continues_statement outcome) role parent
    | abandon control =>
      obtain ⟨x, role, rfl, parent⟩ := Machine.parent_of_leave seeks
      exact handsOver (Machine.mem_active_of_work (by rw [control]; rfl)) (.refl _) role parent
    | reject | begin | miss | exhaust | runOff | overrun | fail | proceed | await | halt | resume
    | misfit | abort => cases seeks

namespace Machine

/-- The stack shows the active executions that are handlers. -/
theorem stack_eq (m : Machine) : m.stack = m.active.filterMap Execution.activation? := by
  have waiting : m.callers.activations =
      (m.callers.list.map Caller.execution).filterMap Execution.activation? := by
    rw [m.callers.activations_eq, List.filterMap_map]
    rfl
  have shown (e : Execution) : e.stackOn m.callers.activations =
      (e :: m.callers.list.map Caller.execution).filterMap Execution.activation? := by
    rw [List.filterMap_cons, ← waiting, Execution.stackOn]
    cases e.activation? <;> rfl
  unfold stack active
  cases m.control with
  | execute e | abandon e f => exact shown e
  | dispatch | seek | answer | halted => exact waiting

/-- A state of a run is followed by the state that its step leads to. -/
theorem step_mem_trace (env : Environment) {s m : Machine} (h : m ∈ s.trace env) :
    m.step env ∈ s.trace env := by
  induction s using run_induction env with
  | halted s hs =>
    rw [trace_of_halted env hs] at h
    rw [List.mem_singleton.mp h, step_of_halted env hs]
    exact mem_trace_self env s
  | running s hs ih =>
    have h' := h
    rw [trace_of_running env hs] at h'
    rcases List.mem_cons.mp h' with rfl | later
    · exact mem_trace_of_step env hs (mem_trace_self env _)
    · exact mem_trace_of_step env hs (ih later)

end Machine

/-! ## Top-level sends -/

namespace Engine

/-- At an earlier state of the run that `top` sets off, or at `m` itself, a send was checked whose
receiver was then of class `start`. -/
def CheckedBefore (e : Engine) (top : Send) (m : Machine) (send : Send) (start : ClassId) : Prop :=
  ∃ s ∈ e.states top, m ∈ s.trace e.environment ∧ s.control = .dispatch send ∧
    ∃ o, s.session.world.objects.get? send.receiver = some o ∧ o.classId = start

variable (e : Engine) (hn : e.natives.IsStandard)

include hn

theorem named_of_mem {top : Send} {m : Machine} (h : m ∈ e.states top) :
    m.Named e.world.classes (e.CheckedBefore top m) := by
  refine (Machine.trace_invariant
    (P := fun m => m ∈ e.states top ∧ m.Named e.world.classes (e.CheckedBefore top m))
    e.environment (fun m running ⟨mem, named⟩ => ⟨Machine.step_mem_trace _ mem, ?_⟩) (e.start top)
    ⟨Machine.mem_trace_self _ _, ⟨rfl, fun x hx => (by cases hx), fun _ _ _ h => (by cases h)⟩⟩
    m h).2
  have later : (m.step e.environment).Named e.world.classes (e.CheckedBefore top m) :=
    (Machine.transition_step e.environment m running).named hn named fun send o control receiver =>
      ⟨m, mem, Machine.mem_trace_self _ _, control, o, receiver, rfl⟩
  exact later.mono fun send start ⟨s, hs, hm, rest⟩ => ⟨s, hs, Machine.step_mem_trace _ hm, rest⟩

/-- Objects stay with their classes all through a send. -/
theorem classId_of_mem {top : Send} {m : Machine} (h : m ∈ e.states top) (id : ObjectId) :
    (m.session.world.objects.get? id).map Object.classId =
      (e.world.objects.get? id).map Object.classId := by
  have kept : (e.start top).session.world.Rewritten (fun _ => True) m.session.world :=
    Machine.trace_invariant
      (P := fun m => (e.start top).session.world.Rewritten (fun _ => True) m.session.world)
      e.environment
      (fun m running kept =>
        kept.trans (((Machine.transition_step _ m running).rewritten hn).mono fun _ _ => trivial))
      (e.start top) (.refl _ _) m h
  exact kept.objects.classId_eq id

/-- **Every running handler can be named.**  Let the natives be standard, and take any state of
a top-level send.

For each handler on the stack the directory holds the class under which it is shown, and that class
itself defines the message; so it is shown by these two names, and a number never stands in for one.
The class stands on the superclass chain of the class that the receiver had when the send was
checked that the handler runs for, at an earlier state of the run.  Objects stay with their classes
meanwhile, and the directory stays the same.

The handler on top of the stack is the one that is being interpreted: the code at work is the body
that its class defines. -/
theorem stack_named (top : Send) :
    let d := e.world.classes
    ∀ m ∈ e.states top,
      m.session.world.classes = d ∧
      (∀ id, (m.session.world.objects.get? id).map Object.classId =
        (e.world.objects.get? id).map Object.classId) ∧
      (∀ a ∈ m.stack, ∃ c h, d.get? a.cls = some c ∧ c.id = a.cls ∧ c.handler? a.message = some h ∧
        d.activationName a =
          "[" ++ c.name ++ " " ++ h.name ++ " (line " ++ toString a.line ++ ")]" ∧
        ∃ s ∈ e.states top, m ∈ s.trace e.environment ∧ ∃ sent o, s.control = .dispatch sent ∧
          sent.receiver = a.receiver ∧ sent.message = a.message ∧
          s.session.world.objects.get? a.receiver = some o ∧ d.Above o.classId a.cls) ∧
      ∀ x, m.control.execution? = some x → ∃ a below c h, m.stack = a :: below ∧
        a.receiver = x.receiver ∧ d.get? a.cls = some c ∧ c.handler? a.message = some h ∧
        x.cursor.code = h.body ∧ x.codeStart = h.codeStart := by
  intro d m mem
  have named := e.named_of_mem hn mem
  refine ⟨named.classes, e.classId_of_mem hn mem, fun a ha => ?_, fun x work => ?_⟩
  · rw [m.stack_eq] at ha
    obtain ⟨y, active, shown⟩ := List.mem_filterMap.mp ha
    obtain ⟨x, c, h, role, placed⟩ := named.active y active
    have same : x.activation = a := by
      rw [Execution.activation?, role] at shown
      exact Option.some.inj shown
    subst same
    obtain ⟨_, ⟨s, earlier, later, control, o, receiver, rfl⟩, above⟩ := placed.above
    exact ⟨c, h, placed.held, Directory.id_of_get? placed.held, placed.defines,
      Directory.activationName_eq placed.held placed.defines, s, earlier, later, x.send, o, control,
      rfl, rfl, receiver, above⟩
  · obtain ⟨y, c, h, role, placed⟩ := named.active x (Machine.mem_active_of_work work)
    exact ⟨y.activation, _, c, h, Machine.stack_of_work work role, placed.receiver.symm,
      placed.held, placed.defines, placed.code, placed.codeStart⟩

omit hn in
theorem stack_named_deferring :
    withDeferring.natives.IsStandard ∧
      ∃ m ∈ withDeferring.states ⟨⟨0⟩, ⟨1⟩, []⟩, ∃ a ∈ m.stack, a.cls = ⟨1⟩ ∧
        withDeferring.world.classes.activationName a = "[Answering Run (line 0)]" ∧
        withDeferring.world.classes.Above ⟨2⟩ a.cls := by
  have natives : withDeferring.natives.IsStandard := NativeTable.isStandard_standard
  let send : Send := ⟨⟨0⟩, ⟨1⟩, []⟩
  -- the fourth step begins the handler of the superclass
  let m := (Machine.step withDeferring.environment)^[4] (withDeferring.start send)
  have mem : m ∈ withDeferring.states send := Machine.iterate_mem_trace _ 4 _
  have stack : m.stack = [⟨⟨0⟩, ⟨1⟩, ⟨1⟩, 0⟩] := by decide +kernel
  obtain ⟨-, -, named, -⟩ := stack_named withDeferring natives send m mem
  obtain ⟨_, _, _, -, -, -, s, earlier, -, _, o, -, -, -, receiver, above⟩ :=
    named ⟨⟨0⟩, ⟨1⟩, ⟨1⟩, 0⟩ (by rw [stack]; exact List.mem_cons_self)
  obtain ⟨-, classIds, -⟩ := stack_named withDeferring natives send s earlier
  have classId : some o.classId = some ⟨2⟩ := by
    have kept := classIds ⟨0⟩
    rw [receiver] at kept
    exact kept
  refine ⟨natives, m, mem, _, by rw [stack]; exact List.mem_cons_self, rfl, by decide +kernel, ?_⟩
  rw [← Option.some.inj classId]
  exact above

end Engine

end MessageMachine
