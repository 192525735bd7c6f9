import MessageMachine.Proofs.Machine.Nesting

/-!
# The footprint of a run

A step writes at most the object that one of the active executions runs for
(`Transition.rewritten`).  An execution is active because a handler has begun to work for its
receiver earlier in the run, so over a whole run only the receivers of handlers are written
(`Machine.rewritten_run`).  Everything else about the objects, the classes and the posts that wait
already is the same at the end, however the run ends.
-/

namespace MessageMachine

namespace Machine

/-- With the next step a handler begins to work for the object in slot `i`. -/
def BeginsAt (m : Machine) (i : Nat) : Prop :=
  ∃ send start again, m.control = .seek send start again ∧ m.begins = true ∧
    send.receiver.slot = i

/-- An execution of `m` runs for the object in slot `i`. -/
def ActiveAt (m : Machine) (i : Nat) : Prop := ∃ x ∈ m.active, x.receiver.slot = i

theorem activeAt_of_work {m : Machine} {x : Execution} (h : m.control.execution? = some x) :
    m.ActiveAt x.receiver.slot :=
  ⟨x, mem_active_of_work h, rfl⟩

theorem activeAt_of_pop? {m : Machine} {c : Caller} {callers : Callers}
    (pop : m.callers.pop? = some (c, callers)) : m.ActiveAt c.execution.receiver.slot := by
  refine ⟨c.execution, mem_active_of_waits ?_, rfl⟩
  rw [Callers.list_of_pop? pop]
  exact List.mem_cons_self

end Machine

/-- Bookkeeping touches nothing. -/
theorem Session.Idle.rewritten {s s' : Session} (h : s.Idle s') (touched : Nat → Prop) :
    s.world.Rewritten touched s'.world :=
  .of_eq h.objects h.classes h.posts

namespace Transition

variable {env : Environment} {m m' : Machine}

/-- **A step writes at most the objects that executions are active for.** -/
theorem rewritten (hn : env.natives.IsStandard) (t : Transition env m m') :
    m.session.world.Rewritten m.ActiveAt m'.session.world := by
  have statement {e : Execution} {x : Except Fault Next} {moment : Moment}
      (control : m.control = .execute e)
      (outcome : Action.statement (m.scope env (m.session.statements + 1)) (m.session.moment e) =
        (x, moment)) : m.session.world.Rewritten m.ActiveAt moment.world := by
    refine ((Action.Tame.statement _ hn).of_run outcome).1.world.mono ?_
    rintro i rfl
    exact Machine.activeAt_of_work (by rw [control]; rfl)
  have answer {r : Except Fault Value} {c : Caller} {callers : Callers} {value : Value}
      {x : Except Fault Unit} {moment : Moment} (pop : m.callers.pop? = some (c, callers))
      (outcome : Action.assignIf c.destination value ((m.session.forgive c r).moment c.execution) =
        (x, moment)) : m.session.world.Rewritten m.ActiveAt moment.world := by
    refine ((Session.Idle.forgive m.session c r).rewritten _).trans
      (((Action.Tame.assignIf _ _).of_run outcome).1.world.mono ?_)
    rintro i rfl
    exact Machine.activeAt_of_pop? pop
  cases t with
  | reject | miss => exact (Machine.idle_refuse m _).rewritten _
  | accept | exhaust | runOff | overrun | halt | abort => exact .refl _ _
  | begin => exact .of_eq rfl rfl rfl
  | fail control _ _ outcome | proceed control _ _ outcome | await control _ _ outcome =>
    exact statement control outcome
  | @finish e ending moment control _ _ outcome =>
    have idle := Machine.idle_leave env { m.counted with session := m.counted.session.after moment }
      moment.execution (.ok ending)
    exact (statement control outcome).trans (idle.rewritten m.ActiveAt)
  | abandon => exact (Machine.idle_abandon env m _ _).rewritten _
  | resume control pop seen outcome | misfit control pop seen outcome => exact answer pop outcome

/-- An execution runs for an object that one has run for before, or begins to. -/
theorem activeAt_cases (t : Transition env m m') {i : Nat}
    (h : m'.ActiveAt i) : m.ActiveAt i ∨ m.BeginsAt i := by
  obtain ⟨x, hx, rfl⟩ := h
  rcases t.active_cases x hx with
    ⟨y, hy, continues⟩ | ⟨send, start, again, cls, handler, _, _, control, found, rfl⟩
  · exact .inl ⟨y, hy, by rw [continues.receiver]⟩
  · refine .inr ⟨send, start, again, control, ?_, rfl⟩
    rw [Machine.begins_of_seek control, found]
    rfl

end Transition

namespace Machine

/-- **A run writes at most the objects that executions are active for at its beginning, and those
that handlers begin to work for.** -/
theorem rewritten_run (env : Environment) (hn : env.natives.IsStandard) (m : Machine) :
    m.session.world.Rewritten (fun i => m.ActiveAt i ∨ ∃ m' ∈ m.trace env, m'.BeginsAt i)
      (m.run env).session.world := by
  induction m using run_induction env with
  | halted m hm =>
    rw [run_of_halted env hm]
    exact .refl _ _
  | running m hm ih =>
    have t := transition_step env m hm
    rw [run_step] at ih
    refine ((t.rewritten hn).mono fun i hi => .inl hi).trans (ih.mono ?_)
    rintro i (active | ⟨m', hm', begins⟩)
    · rcases t.activeAt_cases active with active | begins
      · exact .inl active
      · exact .inr ⟨m, mem_trace_self env m, begins⟩
    · exact .inr ⟨m', mem_trace_of_step env hm hm', begins⟩

end Machine

namespace Engine

/-- **What a top-level send can write.**  Let the natives be standard.  However the send ends, no
object has been created or deleted, and of each object the number, the class, the marks and the
numbers of the properties are the same as before.  Property values are the same too, unless a
handler has run for the object.  The directory is the same, with all class variables; and the queue
is the old one with new posts at its end, if any. -/
theorem send_footprint (e : Engine) (hn : e.natives.IsStandard) (send : Send) :
    let before := e.world
    let after := (e.send send).2.world
    after.objects.size = before.objects.size ∧
      (∀ i : Nat,
        after.objects.slots[i]?.map
            (fun o => (o.id, o.classId, o.deleted, o.garbage, o.properties.map Property.id)) =
          before.objects.slots[i]?.map
            (fun o => (o.id, o.classId, o.deleted, o.garbage, o.properties.map Property.id))) ∧
      (∀ i : Nat, (∀ m ∈ e.states send, ¬ m.BeginsAt i) →
        after.objects.slots[i]?.map Object.properties =
          before.objects.slots[i]?.map Object.properties) ∧
      after.classes = before.classes ∧
      ∃ posted, after.posts.waiting = before.posts.waiting ++ posted := by
  intro before after
  have written := Machine.rewritten_run e.environment hn (e.start send)
  obtain ⟨posted, posts⟩ := written.posts
  refine ⟨written.objects.size_eq, written.objects.shape, fun i untouched => ?_, written.classes,
    posted, congrArg PostQueue.waiting posts⟩
  refine written.objects.properties i ?_
  rintro (⟨x, hx, -⟩ | ⟨m, hm, begins⟩)
  · cases hx
  · exact untouched m hm begins

/-- An engine with one object, whose handler for message 1 writes the number 5 to its property. -/
def writing : Engine :=
  ofBody {} [⟨⟨0⟩, .nil⟩] #[0, 0, 0x18, 2, 0, 0, 0, 0, 5, 0, 0, 0x10, 0x80]

theorem send_footprint_writing :
    let after := (writing.send ⟨⟨0⟩, ⟨1⟩, []⟩).2.world
    writing.natives.IsStandard ∧
      (after.objects.get? ⟨0⟩).bind (fun o => (o.property 0).toOption) = some (.int 5) ∧
      after.objects.size = 1 ∧ ∃ posted, after.posts.waiting = [] ++ posted := by
  intro after
  have natives : writing.natives.IsStandard := NativeTable.isStandard_standard
  have halts : ((Machine.step writing.environment)^[5]
      (writing.start ⟨⟨0⟩, ⟨1⟩, []⟩)).control.isHalted = true := by decide +kernel
  have written :
      (after.objects.get? ⟨0⟩).bind (fun o => (o.property 0).toOption) = some (.int 5) := by
    unfold after
    rw [send_eq, Machine.run_eq_iterate _ 5 _ halts]
    decide +kernel
  obtain ⟨size, -, -, -, posts⟩ := send_footprint writing natives ⟨⟨0⟩, ⟨1⟩, []⟩
  exact ⟨natives, written, size, posts⟩

end Engine

end MessageMachine
