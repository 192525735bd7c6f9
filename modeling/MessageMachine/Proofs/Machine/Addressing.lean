import Mathlib.Data.List.Forall2
import MessageMachine.Proofs.Sharing
import MessageMachine.Proofs.Machine.RunFootprint
import MessageMachine.Proofs.Machine.Writes

/-!
# What a run looks at

A run reaches objects by sends only: whoever a handler runs for has been the receiver of a send, and
the operands of a handler belong to that receiver.  So a run looks at no object that no send is
addressed to, and `Engine.send_looks_at_addressed` says so for two stores of objects.  If they agree
on all objects that sends are addressed to in the one run, and if the caches of these lead to the
same records, the other run is the same.

What a cache leads to is the one thing about an object that cannot be seen from its class and
properties.  It makes no difference where all caches are current.  But a record that was
replaced lives on while somebody holds on to it, and caches go on to lead to it: an object that
was created before a class was replaced may then read other class variables than one that was
created afterwards (`Engine.send_shows_outdated_record`).

That the objects addressed are known from the run only does no harm.  Along the first run every
execution runs for an object that has been addressed (`Machine.Knows`), and this is all that it
takes for the second run to keep up with it (`Machine.Twins.run`).
-/

namespace MessageMachine

variable {T : ObjectId → Prop} {env : Environment} {m m' : Machine}

/-! ## Receivers -/

/-- An execution that goes on has handled the same send before. -/
theorem Execution.Continues.exists_handling {e e' : Execution} (h : e.Continues e') {x : Handling}
    (role : e'.role = some x) : ∃ y, e.role = some y ∧ y.send = x.send := by
  cases before : e.role with
  | none =>
    have same := h.isSome_role
    rw [before, role] at same
    cases same
  | some y =>
    obtain ⟨line, after⟩ := h.exists_line before
    rw [role] at after
    cases after
    exact ⟨y, rfl, rfl⟩

/-- An execution that has ended hands over the send that it has handled. -/
theorem Machine.handling_of_leave {e : Execution} {result : Except Fault Ending} {send : Send}
    {start : ClassId} {again : Bool}
    (seeks : (m.leave env e result).control = .seek send start again) :
    ∃ x, e.role = some x ∧ x.send = send := by
  cases role : e.role with
  | none =>
    rw [leave_alone env m role] at seeks
    cases seeks
  | some x =>
    rw [leave_handler env m role] at seeks
    have seeks : x.followUp result = .seek send start again := seeks
    rcases x.followUp_cases result with ⟨f, -, follows⟩ | ⟨_, v, -, follows⟩ | ⟨_, -, follows⟩
    all_goals
      rw [follows] at seeks
      cases seeks
    exact ⟨x, rfl, rfl⟩

/-- A handler is looked for because the send has been let through, or because it was handed over. -/
theorem Transition.sender_of_seek (t : Transition env m m') {send : Send} {start : ClassId}
    {again : Bool} (seeks : m'.control = .seek send start again) :
    m.control = .dispatch send ∨ ∃ x ∈ m.active, ∃ h, x.role = some h ∧ h.send = send := by
  cases t with
  | accept control =>
    cases seeks
    exact .inl control
  | finish control _ _ outcome =>
    obtain ⟨h, role, handles⟩ := Machine.handling_of_leave seeks
    obtain ⟨x, before, same⟩ := (Action.continues_statement outcome).exists_handling role
    exact .inr ⟨_, Machine.mem_active_of_work (by rw [control]; rfl), x, before, same.trans handles⟩
  | abandon control =>
    obtain ⟨h, role, handles⟩ := Machine.handling_of_leave seeks
    exact .inr ⟨_, Machine.mem_active_of_work (by rw [control]; rfl), h, role, handles⟩
  | reject | begin | miss | exhaust | runOff | overrun | fail | proceed | await | halt | resume
  | misfit | abort => cases seeks

namespace Machine

/-- All receivers that turn up in `m` satisfy `T`: those that executions run for, those of the sends
that they handle, and that of the send under way. -/
structure Knows (T : ObjectId → Prop) (m : Machine) : Prop where
  active : ∀ x ∈ m.active, T x.receiver ∧ ∀ h, x.role = some h → T h.send.receiver
  seek : ∀ send start again, m.control = .seek send start again → T send.receiver
  dispatch : ∀ send, m.control = .dispatch send → T send.receiver

theorem Knows.within (h : m.Knows T) : m.Within T := ⟨fun x hx => (h.active x hx).1, h.dispatch⟩

end Machine

/-- No receiver turns up but by a send that is attempted. -/
theorem Transition.knows (t : Transition env m m') (h : m.Knows T)
    (attempts : ∀ send, m'.control = .dispatch send → T send.receiver) : m'.Knows T := by
  refine ⟨fun x hx => ?_, fun send start again seeks => ?_, attempts⟩
  · rcases t.active_cases x hx with
      ⟨y, hy, continues⟩ | ⟨send, start, again, cls, handler, _, _, control, -, rfl⟩
    · obtain ⟨known, handled⟩ := h.active y hy
      refine ⟨continues.receiver ▸ known, fun role hrole => ?_⟩
      obtain ⟨before, hbefore, same⟩ := continues.exists_handling hrole
      exact same ▸ handled before hbefore
    · have known := h.seek send start again control
      refine ⟨known, fun role hrole => ?_⟩
      cases hrole
      exact known
  · rcases t.sender_of_seek seeks with control | ⟨x, hx, role, hrole, rfl⟩
    · exact h.dispatch send control
    · exact (h.active x hx).2 role hrole

namespace Machine

/-- **All along a run only receivers of attempted sends turn up.** -/
theorem Knows.trace (h : m.Knows T)
    (attempts : ∀ s ∈ m.trace env, ∀ send, s.control = .dispatch send → T send.receiver) :
    ∀ s ∈ m.trace env, s.Knows T := by
  induction m using run_induction env with
  | halted m hm =>
    intro s hs
    rw [trace_of_halted env hm] at hs
    rw [List.mem_singleton.mp hs]
    exact h
  | running m hm ih =>
    rw [trace_of_running env hm] at attempts ⊢
    obtain ⟨-, later⟩ := List.forall_mem_cons.mp attempts
    have next : (m.step env).Knows T :=
      (transition_step env m hm).knows h (later _ (mem_trace_self env _))
    exact List.forall_mem_cons.mpr ⟨h, ih next later⟩

/-- The send that is about to be checked. -/
def attempt? (m : Machine) : Option Send :=
  match m.control with
  | .dispatch send => some send
  | _ => none

theorem attempt?_of_dispatch {send : Send} (control : m.control = .dispatch send) :
    m.attempt? = some send := by
  rw [attempt?, control]

/-- What is about to be written belongs to a receiver that an execution runs for. -/
theorem Within.destination (h : m.Within T) {receiver : ObjectId} {d : Destination}
    (destination : m.destination? = some (receiver, d)) : T receiver := by
  unfold destination? at destination
  split at destination
  · rename_i e control
    obtain ⟨d', -, same⟩ := Option.map_eq_some_iff.mp destination
    cases same
    exact h.active e (mem_active_of_work (by rw [control]; rfl))
  · split at destination
    · rename_i c callers pop
      obtain ⟨d', -, same⟩ := Option.map_eq_some_iff.mp destination
      cases same
      refine h.active c.execution (mem_active_of_waits ?_)
      rw [Callers.list_of_pop? pop]
      exact List.mem_cons_self
    · cases destination
  · cases destination

/-- Twins write the same. -/
theorem Twins.write? (hn : env.natives.IsStandard) (h : m.Twins (World.Shares T) m')
    (within : m.Within T) : m.write? env = m'.write? env := by
  have next := h.step (World.Shares.twinship hn) within
  have same : m.destination? = m'.destination? := by
    unfold destination?
    rw [h.control, h.callers]
  unfold Machine.write? writeTo?
  rw [← same, ← next.control]
  cases destination : m.destination? with
  | none => rfl
  | some p =>
    obtain ⟨receiver, place, index⟩ := p
    cases place with
    | localVar => rfl
    | property =>
      have shared := next.session.world.objects receiver (within.destination destination)
      have reads : ((m.step env).session.world.objects.get? receiver).bind
            (fun o => (o.property index).toOption) =
          ((m'.step env).session.world.objects.get? receiver).bind
            (fun o => (o.property index).toOption) := by
        rcases shared.cases with ⟨missing, missing'⟩ | ⟨o, o', found, found', alike⟩
        · rw [missing, missing']
        · rw [found, found', Option.bind_some, Option.bind_some,
            Object.property_of_visible alike index]
      cases (m.step env).control with
      | execute => exact congrArg (Option.map _) reads
      | dispatch | seek | abandon | answer | halted => rfl

end Machine

/-- Lists that are related element by element are filtered alike by what does not
see the difference. -/
theorem filterMap_eq_of_forall₂ {α β : Type} {R : α → α → Prop} {f : α → Option β}
    (blind : ∀ a a', R a a' → f a = f a') {as as' : List α} (h : List.Forall₂ R as as') :
    as.filterMap f = as'.filterMap f := by
  induction h with
  | nil => rfl
  | cons first _ ih => rw [List.filterMap_cons, List.filterMap_cons, blind _ _ first, ih]

/-! ## Top-level sends -/

namespace Engine

/-- The sends that are attempted when `send` is made from the top, itself and all nested ones,
in their order. -/
def attempts (e : Engine) (send : Send) : List Send := (e.states send).filterMap Machine.attempt?

/-- The properties that are written when `send` is made from the top, in their order. -/
def writes (e : Engine) (send : Send) : List PropertyWrite := (e.start send).writes e.environment

/-- A send is addressed to the object when `send` is made from the top. -/
def Addresses (e : Engine) (send : Send) (object : ObjectId) : Prop :=
  ∃ s ∈ e.attempts send, s.receiver = object

theorem addresses_of_dispatch {e : Engine} {send s : Send} (mem : m ∈ e.states send)
    (control : m.control = .dispatch s) : e.Addresses send s.receiver :=
  ⟨s, List.mem_filterMap.mpr ⟨m, mem, Machine.attempt?_of_dispatch control⟩, rfl⟩

/-- All receivers that turn up are addressed. -/
theorem knows_of_mem {e : Engine} {send : Send} :
    ∀ m ∈ e.states send, m.Knows (e.Addresses send) := by
  have first : (e.start send).Knows (e.Addresses send) := by
    refine ⟨fun x hx => (by cases hx), fun _ _ _ h => (by cases h), fun s control => ?_⟩
    exact addresses_of_dispatch (Machine.mem_trace_self _ _) control
  exact first.trace fun m mem s control => addresses_of_dispatch mem control

/-- **A send looks at no object that no send is addressed to.**  Let the natives be standard.  Take
two stores of objects that agree on the receivers of all sends that are attempted when `send` is
made in the first, and let the caches of these lead alike.

Made in the second store, `send` leads to the same attempts of sends, to the same answer, to the
same writes of properties in the same order, to the same posts, and to as many statements and native
calls.  The writes are all that happens to properties, in either store.  The engines are left with
the same statistics, and their worlds differ in objects alone that no send was addressed to. -/
theorem send_looks_at_addressed (e : Engine) (hn : e.natives.IsStandard) (send : Send)
    (objects : Population)
    (agree : ∀ id, e.Addresses send id → e.world.objects.AgreeAt objects id)
    (leads : ∀ id, e.Addresses send id → e.world.objects.LeadAlike e.world.classes objects id) :
    let e' := e.withObjects objects
    let last := (e.start send).run e.environment
    let last' := (e'.start send).run e'.environment
    e'.attempts send = e.attempts send ∧
      (e'.send send).1 = (e.send send).1 ∧
      e'.writes send = e.writes send ∧
      e.world.objects.WrittenBy (e.writes send) (e.send send).2.world.objects ∧
      objects.WrittenBy (e.writes send) (e'.send send).2.world.objects ∧
      (e'.send send).2.world.posts = (e.send send).2.world.posts ∧
      last'.session.statements = last.session.statements ∧
      last'.session.nativeCalls = last.session.nativeCalls ∧
      (e'.send send).2.statistics = (e.send send).2.statistics ∧
      (e.send send).2.world.Shares (e.Addresses send) (e'.send send).2.world := by
  intro e' last last'
  have start : (e.start send).Twins (World.Shares (e.Addresses send)) (e'.start send) :=
    ⟨⟨⟨agree, leads, rfl, rfl, rfl, rfl⟩, rfl, rfl, rfl, rfl⟩, rfl, rfl⟩
  have within : ∀ m ∈ e.states send, m.Within (e.Addresses send) :=
    fun m mem => (knows_of_mem m mem).within
  obtain ⟨states, halted⟩ := start.run (World.Shares.twinship hn) within
  have states := (List.forall₂_and_left _ _).mpr ⟨within, states⟩
  have session : last.session.Twins (World.Shares (e.Addresses send)) last'.session :=
    halted.session
  obtain ⟨world, statistics⟩ :=
    session.endSend (World.Shares.twinship hn) e e' send e.beginSend.1
  have writes : e'.writes send = e.writes send :=
    (filterMap_eq_of_forall₂ (fun s s' related => related.2.write? hn related.1) states).symm
  have written' := Machine.writtenBy_run e'.environment hn (e'.start send)
  rw [show (e'.start send).writes e'.environment = e.writes send from writes] at written'
  refine ⟨?_, halted.result.symm, writes, Machine.writtenBy_run e.environment hn (e.start send),
    written', world.posts.symm, session.statements.symm, session.nativeCalls.symm, statistics.symm,
    world⟩
  refine (filterMap_eq_of_forall₂ (fun s s' related => ?_) states).symm
  rw [Machine.attempt?, Machine.attempt?, related.2.control]

/-- An object that nothing is sent to. -/
def bystander : Object where
  id := ⟨1⟩
  classId := ⟨1⟩
  properties := #[⟨⟨0⟩, .int 7⟩]

theorem send_looks_at_addressed_writing :
    let e := writing.withObjects ⟨writing.world.objects.slots.push bystander⟩
    let send : Send := ⟨⟨0⟩, ⟨1⟩, []⟩
    e.natives.IsStandard ∧
      (∀ id, e.Addresses send id → e.world.objects.AgreeAt writing.world.objects id) ∧
      (∀ id, e.Addresses send id →
        e.world.objects.LeadAlike e.world.classes writing.world.objects id) ∧
      e.Addresses send ⟨0⟩ ∧ ¬ e.world.objects.AgreeAt writing.world.objects ⟨1⟩ ∧
      writing.attempts send = e.attempts send ∧ writing.writes send = e.writes send := by
  intro e send
  have natives : e.natives.IsStandard := NativeTable.isStandard_standard
  have sole : e.world.classes.Sole := Directory.sole_empty.insert _
  have halts : ((Machine.step e.environment)^[5] (e.start send)).control.isHalted = true := by
    decide +kernel
  have receivers : ∀ m ∈ e.states send,
      m.attempt? = none ∨ m.attempt?.map Send.receiver = some ⟨0⟩ :=
    Machine.forall_mem_trace _ 5 _ halts (by decide +kernel)
  have agree : ∀ id, e.Addresses send id → e.world.objects.AgreeAt writing.world.objects id := by
    rintro id ⟨s, attempted, rfl⟩
    obtain ⟨m, mem, attempt⟩ := List.mem_filterMap.mp attempted
    rcases receivers m mem with none | zero
    · rw [attempt] at none
      cases none
    · rw [attempt] at zero
      rw [show s.receiver = ⟨0⟩ from Option.some.inj zero]
      rfl
  have leads : ∀ id, e.Addresses send id →
      e.world.objects.LeadAlike e.world.classes writing.world.objects id :=
    fun id addressed => .of_current (agree id addressed) (Population.current_of_sole sole _)
      (Population.current_of_sole sole _)
  obtain ⟨attempts, -, writes, -⟩ :=
    send_looks_at_addressed e natives send writing.world.objects agree leads
  have addressed : e.Addresses send ⟨0⟩ :=
    addresses_of_dispatch (s := send) (Machine.mem_trace_self _ _) rfl
  have unlike : ¬ e.world.objects.AgreeAt writing.world.objects ⟨1⟩ := Option.some_ne_none _
  exact ⟨natives, agree, leads, addressed, unlike, attempts, writes⟩

/-- A class with one variable, which its handler for message 1 returns. -/
def versionOf (v : Int) : Class where
  id := ⟨1⟩
  name := "Store"
  vars := #[.int v]
  handlers := (Handler.ofBody ⟨1⟩ "Read" #[0, 0, 0x9c, 0, 0, 0, 0]).toOption.toList

/-- One instance of class 1, created now. -/
def instanceIn (classes : Directory) : Population :=
  ((classes.record? ⟨1⟩).map fun r => (Population.create {} r).2).getD {}

/-- **A send may show what no class and no property does.**  A class is replaced while its keeper
holds on to the record.  An instance from before and one from afterwards agree in everything but
their caches; yet the variable of the class is 5 to the one and 7 to the other.  It is 7 to both
once the keeper has let go of the record. -/
theorem send_shows_outdated_record :
    let first := (Directory.insert {} (versionOf 5)).hold 0
    let classes := first.insert (versionOf 7)
    let e (objects : Population) (classes : Directory) : Engine :=
      { world := { objects, classes, posts := { capacity := 0 } } }
    let send : Send := ⟨⟨0⟩, ⟨1⟩, []⟩
    (∀ id, (instanceIn first).AgreeAt (instanceIn classes) id) ∧
      NativeTable.standard.IsStandard ∧
      ((e (instanceIn first) classes).send send).1 = .ok (.int 5) ∧
      (((e (instanceIn first) classes).withObjects (instanceIn classes)).send send).1 =
        .ok (.int 7) ∧
      ((e (instanceIn first) (classes.release 0)).send send).1 = .ok (.int 7) := by
  intro first classes e send
  have answers (objects : Population) (classes : Directory) (v : Value)
      (halts : ((Machine.step (e objects classes).environment)^[5]
        ((e objects classes).start send)).control.isHalted = true)
      (result : ((Machine.step (e objects classes).environment)^[5]
        ((e objects classes).start send)).result = .ok v) :
      ((e objects classes).send send).1 = .ok v := by
    rw [send_eq, Machine.run_eq_iterate _ 5 _ halts]
    exact result
  refine ⟨fun id => ?_, NativeTable.isStandard_standard, ?_, ?_, ?_⟩
  · unfold Population.AgreeAt Population.get?
    generalize id.number.toNat = i
    cases i <;> rfl
  · exact answers _ _ _ (by decide +kernel) (by decide +kernel)
  · exact answers _ _ _ (by decide +kernel) (by decide +kernel)
  · exact answers _ _ _ (by decide +kernel) (by decide +kernel)

end Engine

end MessageMachine
