import MessageMachine.Proofs.Statement.Sending

/-!
# What a statement writes

A statement writes one destination at most, and it does so last of all: if it goes on, it has
written the destination of its instruction, and before that it has spared all property
values.  A statement that does not go on, because it fails, makes a send or leaves, has
written nothing (`Action.writes_statement`).
-/

namespace MessageMachine

/-- The destination of an instruction, if it has one. -/
def Instruction.destination? : Instruction → Option Destination
  | unary _ destination _ | binary _ destination _ _ => some destination
  | call _ destination _ _ => destination
  | goto _ | gotoIf .. | handOver | leave _ | line _ => none

/-! ## Sparing -/

/-- The execution goes on for the same receiver, and no property has another value. -/
structure Moment.Spares (m m' : Moment) : Prop where
  objects : m.world.objects.Rewritten (fun _ => False) m'.world.objects
  receiver : m'.execution.receiver = m.execution.receiver

namespace Moment.Spares

theorem refl (m : Moment) : m.Spares m := ⟨.refl _ _, rfl⟩

theorem trans {m m' m'' : Moment} (h : m.Spares m') (h' : m'.Spares m'') : m.Spares m'' :=
  ⟨h.objects.trans h'.objects, h'.receiver.trans h.receiver⟩

instance : Std.Refl Moment.Spares := ⟨refl⟩

instance : IsTrans Moment Moment.Spares := ⟨fun _ _ _ => trans⟩

theorem moveTo (m : Moment) (c : Cursor) : m.Spares (m.moveTo c) := ⟨.refl _ _, rfl⟩

end Moment.Spares

theorem Moment.Looked.spares {m m' : Moment} (h : m.Looked m') : m.Spares m' :=
  ⟨h.objects, congrArg Execution.receiver h.execution⟩

/-! ## Writing -/

/-- From `m` to `m'` at most the destination has been written, and this last of all.  It has been
written if the statement goes on, and only then. -/
inductive Moment.Writes (destination : Option Destination) (goesOn : Prop) (m m' : Moment) :
    Prop where
  | nothing (spares : m.Spares m') (idle : goesOn → destination = none)
  | value {d : Destination} {value : Value} {before : Moment} (isDestination : destination = some d)
      (goesOn : goesOn) (spares : m.Spares before)
      (assigned : Action.assign d value before = (.ok (), m'))

theorem Moment.Spares.writes {destination : Option Destination} {goesOn : Prop} {m m' m'' : Moment}
    (h : m.Spares m') (h' : m'.Writes destination goesOn m'') :
    m.Writes destination goesOn m'' := by
  cases h' with
  | nothing spares idle => exact .nothing (h.trans spares) idle
  | value isDestination goesOn spares assigned =>
    exact .value isDestination goesOn (h.trans spares) assigned

namespace Action

/-- What never goes on with something to write, and spares all properties, writes nothing. -/
theorem writes_of_spares {a : Action Next} (h : Within Moment.Spares (fun _ => True) a)
    {destination : Option Destination} {m m' : Moment} {x : Except Fault Next} (run : a m = (x, m'))
    (idle : x = .ok .proceed → destination = none) :
    m.Writes destination (x = .ok .proceed) m' :=
  .nothing (h.of_run run).1 idle

/-- Writing a local changes the frame at most. -/
theorem assign_local {index : UInt32} {value : Value} {m m' : Moment} {x : Except Fault Unit}
    (run : assign ⟨.localVar, index⟩ value m = (x, m')) :
    ∃ frame, m' = { m with execution := { m.execution with frame } } := by
  rw [assign_run] at run
  dsimp only [World.write, Place.kind] at run
  cases written : m.execution.frame.set index value with
  | ok frame =>
    rw [written] at run
    cases run
    exact ⟨frame, rfl⟩
  | error f =>
    rw [written] at run
    cases run
    exact ⟨m.execution.frame, rfl⟩

/-- Writing a property puts the receiver back with the property written, or changes nothing. -/
theorem assign_property {index : UInt32} {value : Value} {m m' : Moment} {x : Except Fault Unit}
    (run : assign ⟨.property, index⟩ value m = (x, m')) :
    (∃ f, x = .error f ∧ m' = m) ∨
      ∃ o o', m.world.objects.get? m.execution.receiver = some o ∧
        o.setProperty index value = .ok o' ∧ x = .ok () ∧
        m' = { m with world := m.world.putObject m.execution.receiver o' } := by
  rw [assign_run] at run
  dsimp only [World.write, Place.kind] at run
  cases found : m.world.objects.get? m.execution.receiver with
  | none =>
    rw [found] at run
    cases run
    exact .inl ⟨_, rfl, rfl⟩
  | some o =>
    rw [found] at run
    dsimp only at run
    cases written : o.setProperty index value with
    | ok o' =>
      rw [written] at run
      cases run
      exact .inr ⟨o, o', rfl, written, rfl, rfl⟩
    | error f =>
      rw [written] at run
      cases run
      exact .inl ⟨f, rfl, rfl⟩

/-- A destination that cannot be written leaves all properties alone. -/
theorem spares_of_assign {d : Destination} {value : Value} {m m' : Moment} {f : Fault}
    (run : assign d value m = (.error f, m')) : m.Spares m' := by
  obtain ⟨place, index⟩ := d
  cases place with
  | localVar =>
    obtain ⟨frame, rfl⟩ := assign_local run
    exact ⟨.refl _ _, rfl⟩
  | property =>
    rcases assign_property run with ⟨_, -, rfl⟩ | ⟨_, _, -, -, ok, -⟩
    · exact .refl m'
    · cases ok

/-- Writing a destination, and going on. -/
theorem writes_assign {d : Destination} {value : Value} {m m' : Moment} {x : Except Fault Next}
    (run : (assign d value >>= fun _ => pure .proceed) m = (x, m')) :
    m.Writes (some d) (x = .ok .proceed) m' := by
  generalize assigned : assign d value m = outcome
  match outcome with
  | (.ok (), after) =>
    rw [bind_of_ok assigned] at run
    cases run
    exact .value rfl rfl (.refl m) assigned
  | (.error f, after) =>
    rw [bind_of_error assigned] at run
    cases run
    exact .nothing (spares_of_assign assigned) fun h => by cases h

/-- A part that spares all properties comes before what is written. -/
theorem writes_bind {α : Type} {a : Action α} {k : α → Action Next}
    {destination : Option Destination} (ha : Within Moment.Spares (fun _ => True) a)
    (hk : ∀ y m x m', k y m = (x, m') → m.Writes destination (x = .ok .proceed) m') {m m' : Moment}
    {x : Except Fault Next} (run : (a >>= k) m = (x, m')) :
    m.Writes destination (x = .ok .proceed) m' := by
  generalize first : a m = outcome
  match outcome with
  | (.ok y, after) =>
    rw [bind_of_ok first] at run
    exact (ha.of_run first).1.writes (hk y after x m' run)
  | (.error f, after) =>
    rw [bind_of_error first] at run
    cases run
    exact .nothing (ha.of_run first).1 fun h => by cases h

theorem spares_lift {α : Type} (x : Except Fault α) :
    Within Moment.Spares (fun _ => True) (liftM x : Action α) :=
  Within.lift fun _ _ => trivial

theorem spares_fetchOperand (o : Operand) :
    Within Moment.Spares (fun _ => True) (fetchOperand o) :=
  fun m => ⟨(Moment.Looked.fetchOperand o m).spares, fun _ _ => trivial⟩

theorem spares_fetchNamed (n : NamedOperand) :
    Within Moment.Spares (fun _ => True) (fetchNamed n) :=
  (spares_fetchOperand n.operand).bind fun _ => .pure _

theorem spares_jump (target : UInt32) : Within Moment.Spares (fun _ => True) (jump target) := by
  refine Within.get.bind fun m => ?_
  by_cases h : target.toNat < m.execution.codeStart
  · simp only [h, if_true]
    exact .throw trivial
  · simp only [h, if_false]
    intro m'
    rw [reading_run]
    exact ⟨.moveTo m' _, fun _ _ => trivial⟩

theorem spares_jumpIf (taken : Bool) (target : UInt32) :
    Within Moment.Spares (fun _ => True) (jumpIf taken target) := by
  cases taken with
  | true => exact spares_jump target
  | false => exact .pure _

theorem spares_setLine (line : UInt32) : Within Moment.Spares (fun _ => True) (setLine line) :=
  Within.modify (R := Moment.Spares) fun _ => ⟨.refl _ _, rfl⟩

theorem spares_invoke (scope : Scope) (index : UInt8) {native : Native} (h : native.IsStandard)
    (positional : List Value) (named : List Argument) :
    Within Moment.Spares (fun _ => True) (invoke scope index native positional named) := by
  intro m
  obtain ⟨c, m₁, rfl, run⟩ := invoke_run scope index native positional named m
  have kept := (h.run_spec c (m.world.log (.nativeCall native.name index)) fun _ => False).1.objects
  rw [run]
  exact ⟨⟨kept, rfl⟩, fun _ _ => trivial⟩

/-- **Performing an instruction** writes its destination if it goes on, and nothing otherwise. -/
theorem writes_perform {scope : Scope} (hn : scope.environment.natives.IsStandard) {i : Instruction}
    {m m' : Moment} {x : Except Fault Next} (run : perform scope i m = (x, m')) :
    m.Writes i.destination? (x = .ok .proceed) m' := by
  cases i with
  | unary op destination source =>
    exact writes_bind (spares_fetchOperand _)
      (fun v _ _ _ run =>
        writes_bind (spares_lift _) (fun r _ _ _ run => writes_assign run) run) run
  | binary op destination left right =>
    exact writes_bind (spares_fetchOperand _)
      (fun l _ _ _ run => writes_bind (spares_fetchOperand _)
        (fun r _ _ _ run => writes_bind (spares_lift _) (fun v _ _ _ run => writes_assign run) run)
        run) run
  | goto target =>
    exact writes_of_spares ((spares_jump target).bind fun _ => .pure _) run fun _ => rfl
  | gotoIf wanted target condition =>
    exact writes_of_spares ((spares_fetchOperand _).bind fun _ => (spares_jumpIf _ _).bind
      fun _ => .pure _) run fun _ => rfl
  | handOver => exact writes_of_spares (.pure _) run fun _ => rfl
  | leave value =>
    exact writes_of_spares ((spares_fetchOperand _).bind fun _ => .pure _) run fun _ => rfl
  | line number =>
    exact writes_of_spares ((spares_setLine number).bind fun _ => .pure _) run fun _ => rfl
  | call index destination positional named =>
    refine writes_bind (.mapM spares_fetchOperand _) (fun values _ _ _ run =>
      writes_bind (.mapM spares_fetchNamed _) (fun arguments m₁ _ _ run => ?_) run) run
    unfold conclude at run
    cases slot : scope.environment.natives.slot index with
    | none =>
      rw [slot] at run
      exact writes_of_spares (.throw trivial) run fun h => by cases run; cases h
    | some native =>
      rw [slot] at run
      refine writes_bind (spares_invoke scope index (hn index native slot) values arguments)
        (fun reply _ _ _ run => ?_) run
      cases reply with
      | value v =>
        cases destination with
        | none => exact writes_of_spares (.pure _) run fun _ => rfl
        | some d => exact writes_assign run
      | fault f => exact writes_of_spares (.throw trivial) run fun h => by cases run; cases h
      | send s => exact writes_of_spares (.pure _) run fun h => by cases run; cases h

/-- **A statement writes the destination of its instruction if it goes on**, and nothing
otherwise. -/
theorem writes_statement {scope : Scope} (hn : scope.environment.natives.IsStandard) {m m' : Moment}
    {x : Except Fault Next} (run : statement scope m = (x, m')) :
    m.Writes ((Instruction.decode m.execution.cursor).1.toOption.bind Instruction.destination?)
      (x = .ok .proceed) m' := by
  generalize decoded : Instruction.decode m.execution.cursor = outcome
  match outcome with
  | (.error f, c) =>
    obtain ⟨g, after, place, fails, looked, -⟩ := statement_fails scope decoded
    rw [fails] at run
    cases run
    exact .nothing ((Moment.Spares.moveTo m place).trans looked.spares) fun _ => rfl
  | (.ok i, next) =>
    obtain ⟨place, -, same, stays⟩ := (statement_agrees_of_ok scope decoded).exists_place
    rw [run] at same
    generalize performed : perform scope i ((opened scope m).moveTo next) = outcome at same stays
    obtain ⟨x', after⟩ := outcome
    cases same
    have before : m.Spares ((opened scope m).moveTo next) :=
      (Moment.Looked.opened scope m).spares.trans (.moveTo _ next)
    refine before.writes ?_
    cases writes_perform hn performed with
    | nothing spares idle => exact .nothing (spares.trans (.moveTo _ place)) idle
    | value isDestination goesOn spares assigned =>
      rw [stays _ goesOn]
      exact .value isDestination goesOn spares assigned

end Action

end MessageMachine
