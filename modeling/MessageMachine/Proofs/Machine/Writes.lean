import MessageMachine.Proofs.Statement.Writing
import MessageMachine.Proofs.Machine.Trace

/-!
# The writes of a run

`Machine.write?` says which property the next step writes, and with what value.  A step has a
destination when it executes an assignment or a call, or when it gives an answer to a caller; the
destination has been written if its execution goes on after the step.

Nothing else happens to properties: a step without a write leaves the values of all properties as
they are, and a step with a write changes that property and no other (`Machine.written_step`).  So
the writes along a run, one after the other, make all the difference between the properties at its
start and those at its end (`Machine.writtenBy_run`).
-/

namespace MessageMachine

/-- A value is written to a property of an object. -/
structure PropertyWrite where
  object : ObjectId
  index : UInt32
  value : Value
  deriving DecidableEq

/-- The values of properties in `p'` are those in `p`, except for what is written,
if anything is. -/
inductive Population.Written (p p' : Population) : Option PropertyWrite → Prop where
  | nothing (spared : p.Rewritten (fun _ => False) p') : Written p p' none
  | property {object : ObjectId} {index : UInt32} {value : Value} {properties : Array Property}
      (elsewhere : p.Rewritten (· = object.slot) p')
      (before : p.slots[object.slot]?.map Object.properties = some properties)
      (inside : index.toNat < properties.size)
      (after : p'.slots[object.slot]?.map Object.properties =
        some (properties.set index.toNat { properties[index.toNat] with value } inside)) :
      Written p p' (some ⟨object, index, value⟩)

/-- The values of properties in the second population are those in the first once all the writes
have been made, in their order. -/
inductive Population.WrittenBy : Population → List PropertyWrite → Population → Prop where
  | nothing {p p' : Population} (spared : p.Rewritten (fun _ => False) p') : WrittenBy p [] p'
  | write {p p' p'' : Population} {x : PropertyWrite} {xs : List PropertyWrite}
      (first : p.Written p' (some x)) (others : WrittenBy p' xs p'') : WrittenBy p (x :: xs) p''

namespace Population

variable {p p' p'' : Population}

/-- What is spared before a write may count as part of it. -/
theorem Written.of_spared (spared : p.Rewritten (fun _ => False) p') {x : PropertyWrite}
    (h : p'.Written p'' (some x)) : p.Written p'' (some x) := by
  cases h with
  | property elsewhere before inside after =>
    exact .property ((spared.mono fun _ h => h.elim).trans elsewhere)
      ((spared.properties _ id).symm.trans before) inside after

/-- A step is followed by more writes. -/
theorem Written.followed {x : Option PropertyWrite} {xs : List PropertyWrite} (h : p.Written p' x)
    (others : p'.WrittenBy xs p'') : p.WrittenBy (x.toList ++ xs) p'' := by
  cases x with
  | some x => exact .write h others
  | none =>
    cases h with
    | nothing spared =>
      cases others with
      | nothing spared' => exact .nothing (spared.trans spared')
      | write first others => exact .write (first.of_spared spared) others

end Population

/-- A property is written of an object that is put back into its slot. -/
theorem Population.written_put {p p' : Population} (spared : p.Rewritten (fun _ => False) p')
    {object : ObjectId} {o o' : Object} {index : UInt32} {value : Value}
    (found : p'.get? object = some o) (set : o.setProperty index value = .ok o') :
    p.Written (p'.put object o') (some ⟨object, index, value⟩) ∧
      ((p'.put object o').get? object).bind (fun o => (o.property index).toOption) =
        some value := by
  obtain ⟨slot, -⟩ := Option.filter_eq_some_iff.mp found
  have slot : p'.slots[object.slot]? = some o := slot
  have lt := (Array.getElem?_eq_some_iff.mp slot).1
  have inside : index.toNat < o.properties.size := by
    by_contra outside
    rw [(o.setProperty_spec index value).2 outside] at set
    cases set
  have same := spared.properties object.slot id
  rw [slot] at same
  obtain ⟨o'', set', reads, deleted⟩ := (o.setProperty_spec index value).1 inside
  rw [set] at set'
  cases set'
  refine ⟨.property ?_ same.symm inside ?_, ?_⟩
  · exact (spared.mono fun _ h => h.elim).trans
      (rewritten_put found (Object.shape_of_setProperty set) fun hne => absurd rfl hne)
  · rw [getElem?_put o' lt, if_pos rfl]
    rw [Object.setProperty, dif_pos inside] at set
    cases set
    rfl
  · rw [get?_put found deleted, Option.bind_some, reads]
    rfl

namespace Machine

/-- The destination of the next step, if it has one, and the receiver that it is
a destination for. -/
def destination? (m : Machine) : Option (ObjectId × Destination) :=
  match m.control with
  | .execute e =>
    ((Instruction.decode e.cursor).1.toOption.bind Instruction.destination?).map (e.receiver, ·)
  | .answer _ =>
    match m.callers.pop? with
    | some (c, _) => c.destination.map (c.execution.receiver, ·)
    | none => none
  | _ => none

/-- The property that has been written if `m'` follows `m`: the execution goes on, and the property
now has the value that it was given. -/
def writeTo? (m m' : Machine) : Option PropertyWrite :=
  match m.destination?, m'.control with
  | some (receiver, ⟨.property, index⟩), .execute _ =>
    ((m'.session.world.objects.get? receiver).bind fun o => (o.property index).toOption).map
      fun value => ⟨receiver, index, value⟩
  | _, _ => none

/-- The property that the next step writes, if it writes one. -/
def write? (env : Environment) (m : Machine) : Option PropertyWrite := m.writeTo? (m.step env)

variable {m m' : Machine}

theorem writeTo?_of_destination (h : m.destination? = none) : m.writeTo? m' = none := by
  rw [writeTo?, h]

theorem writeTo?_of_control (h : ∀ e, m'.control ≠ .execute e) : m.writeTo? m' = none := by
  unfold writeTo?
  split
  · rename_i control
    exact absurd control (h _)
  · rfl

/-- An execution that goes on has written its destination, if it has one. -/
theorem written_of_writes {destination : Option Destination} {before after : Moment} {e : Execution}
    (h : before.Writes destination True after)
    (isDestination : m.destination? = destination.map (before.execution.receiver, ·))
    (first : m.session.world.objects = before.world.objects)
    (last : m'.session.world.objects = after.world.objects) (control : m'.control = .execute e) :
    m.session.world.objects.Written m'.session.world.objects (m.writeTo? m') := by
  rw [first]
  cases h with
  | nothing spares idle =>
    rw [idle trivial] at isDestination
    rw [writeTo?_of_destination isDestination, last]
    exact .nothing spares.objects
  | @value d value written same _ spares assigned =>
    obtain ⟨place, index⟩ := d
    rw [same] at isDestination
    rw [writeTo?, isDestination, control, last]
    cases place with
    | localVar =>
      obtain ⟨frame, rfl⟩ := Action.assign_local assigned
      exact .nothing spares.objects
    | property =>
      rcases Action.assign_property assigned with ⟨_, fails, -⟩ | ⟨o, o', found, set, -, rfl⟩
      · cases fails
      · rw [spares.receiver] at found ⊢
        obtain ⟨writes, reads⟩ := Population.written_put spares.objects found set
        have now : (written.world.putObject before.execution.receiver o').objects =
            written.world.objects.put before.execution.receiver o' := rfl
        dsimp only [Option.map_some]
        rw [now, reads]
        exact writes

/-- A step after which no execution goes on has written nothing. -/
theorem written_of_spared (spared : m.session.world.objects.Rewritten (fun _ => False)
    m'.session.world.objects) (h : m.destination? = none ∨ ∀ e, m'.control ≠ .execute e) :
    m.session.world.objects.Written m'.session.world.objects (m.writeTo? m') := by
  rcases h with idle | stopped
  · rw [writeTo?_of_destination idle]
    exact .nothing spared
  · rw [writeTo?_of_control stopped]
    exact .nothing spared

end Machine

/-- Without going on, a statement has written nothing. -/
theorem Moment.Writes.spares {destination : Option Destination} {goesOn : Prop} {m m' : Moment}
    (h : m.Writes destination goesOn m') (stopped : ¬ goesOn) : m.Spares m' := by
  cases h with
  | nothing spares => exact spares
  | value _ goesOn => exact absurd goesOn stopped

/-- Giving a value to a waiting execution writes its destination, if this succeeds. -/
theorem Action.writes_assignIf {destination : Option Destination} {value : Value} {m m' : Moment}
    {x : Except Fault Unit} (run : assignIf destination value m = (x, m')) :
    m.Writes destination (x = .ok ()) m' := by
  cases destination with
  | none =>
    cases run
    exact .nothing (.refl m) fun _ => rfl
  | some d =>
    match x with
    | .ok () => exact .value rfl rfl (.refl m) run
    | .error f => exact .nothing (spares_of_assign run) fun h => by cases h

/-- **A step changes the property that it writes, if it writes one, and no other.** -/
theorem Transition.written {env : Environment} {m m' : Machine} (hn : env.natives.IsStandard)
    (t : Transition env m m') :
    m.session.world.objects.Written m'.session.world.objects (m.writeTo? m') := by
  have stopped {e : Execution} {x : Except Fault Next} {moment : Moment}
      (outcome : Action.statement (m.scope env (m.session.statements + 1)) (m.session.moment e) =
        (x, moment)) (stops : x ≠ .ok .proceed) :
      m.session.world.objects.Rewritten (fun _ => False) moment.world.objects :=
    ((Action.writes_statement hn outcome).spares stops).objects
  have forgiven (c : Caller) (r : Except Fault Value) :
      m.session.world.objects = (m.session.forgive c r).world.objects :=
    (Session.Idle.forgive m.session c r).objects.symm
  cases t with
  | reject control | miss control =>
    refine Machine.written_of_spared ?_ (.inl (by rw [Machine.destination?, control]))
    rw [(Machine.idle_refuse m _).objects]
    exact .refl _ _
  | accept control | exhaust control | begin control =>
    exact Machine.written_of_spared (.refl _ _) (.inl (by rw [Machine.destination?, control]))
  | abandon control =>
    refine Machine.written_of_spared ?_ (.inl (by rw [Machine.destination?, control]))
    rw [(Machine.idle_abandon env m _ _).objects]
    exact .refl _ _
  | runOff | overrun | halt | abort =>
    exact Machine.written_of_spared (.refl _ _) (.inr fun e h => by cases h)
  | fail control _ _ outcome | await control _ _ outcome =>
    exact Machine.written_of_spared (stopped outcome fun h => by cases h)
      (.inr fun e h => by cases h)
  | finish control _ _ outcome =>
    refine Machine.written_of_spared ?_ (.inr fun e h => ?_)
    · rw [(Machine.idle_leave env _ _ _).objects]
      exact stopped outcome fun h => by cases h
    · rcases Machine.control_leave env _ _ _ with ⟨_, _, c⟩ | ⟨_, c⟩ | ⟨_, _, c⟩
      all_goals
        rw [h] at c
        cases c
  | @proceed e moment control _ _ outcome =>
    have writes := Action.writes_statement hn outcome
    rw [eq_self_iff_true] at writes
    exact Machine.written_of_writes writes (by rw [Machine.destination?, control]; rfl) rfl rfl rfl
  | resume control pop _ outcome =>
    have writes := Action.writes_assignIf outcome
    rw [eq_self_iff_true] at writes
    exact Machine.written_of_writes writes (by rw [Machine.destination?, control, pop]; rfl)
      (forgiven _ _) rfl rfl
  | misfit control pop _ outcome =>
    have spares := (Action.writes_assignIf outcome).spares fun h => by cases h
    refine Machine.written_of_spared ?_ (.inr fun e h => by cases h)
    rw [forgiven]
    exact spares.objects

namespace Machine

/-- **Between two states of a run at most one property has changed**: the one that `write?` says. -/
theorem written_step (env : Environment) (hn : env.natives.IsStandard) (m : Machine) :
    m.session.world.objects.Written (m.step env).session.world.objects (m.write? env) := by
  cases halted : m.control.isHalted with
  | false => exact (transition_step env m halted).written hn
  | true =>
    rw [write?, step_of_halted env halted]
    refine written_of_spared (.refl _ _) (.inr fun e h => ?_)
    rw [h] at halted
    cases halted

/-- The properties that are written on the run from `m`, in their order. -/
def writes (env : Environment) (m : Machine) : List PropertyWrite :=
  (m.trace env).filterMap (write? env)

/-- **The writes along a run are all that happens to properties.** -/
theorem writtenBy_run (env : Environment) (hn : env.natives.IsStandard) (m : Machine) :
    m.session.world.objects.WrittenBy (m.writes env) (m.run env).session.world.objects := by
  have first_write (m : Machine) (others : List Machine) :
      (m :: others).filterMap (write? env) =
        (m.write? env).toList ++ others.filterMap (write? env) := by
    rw [List.filterMap_cons]
    cases m.write? env <;> rfl
  induction m using run_induction env with
  | halted m hm =>
    have last := written_step env hn m
    rw [step_of_halted env hm] at last
    rw [writes, trace_of_halted env hm, run_of_halted env hm, first_write]
    exact last.followed (.nothing (.refl _ _))
  | running m hm ih =>
    rw [writes, trace_of_running env hm, ← run_step env m, first_write]
    exact (written_step env hn m).followed ih

end Machine

end MessageMachine
