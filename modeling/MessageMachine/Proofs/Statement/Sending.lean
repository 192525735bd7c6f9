import MessageMachine.Proofs.Statement.InPlace

/-!
# Sending and being answered

The two ends of a send, as the execution that makes it sees them.

A statement that makes a send is a call.  The answer goes to the destination of that call,
and the execution has only moved on behind it (`Action.statement_await`).  When the answer
comes, it is written to the destination and nowhere else, and this succeeds if there is such
a place (`Action.assignIf_spec`).
-/

namespace MessageMachine

/-! ## Statements that make a send -/

/-- Performing an instruction that is no call does not end with a send. -/
theorem Action.gives_perform (scope : Scope) {i : Instruction}
    (h : ∀ index destination positional named, i ≠ .call index destination positional named) :
    Gives (fun next => ∀ send destination, next ≠ .await send destination) (perform scope i) := by
  have proceeds : ∀ send destination, Next.proceed ≠ .await send destination :=
    fun _ _ e => by cases e
  cases i with
  | unary op destination source =>
    exact .bind fun _ => .bind fun _ => .bind fun _ => .pure proceeds
  | binary op destination left right =>
    exact .bind fun _ => .bind fun _ => .bind fun _ => .bind fun _ => .pure proceeds
  | goto target => exact .bind fun _ => .pure proceeds
  | gotoIf wanted target condition => exact .bind fun _ => .bind fun _ => .pure proceeds
  | call index destination positional named => exact absurd rfl (h _ _ _ _)
  | handOver => exact .pure fun _ _ e => by cases e
  | leave value => exact .bind fun _ => .pure fun _ _ e => by cases e
  | line number => exact .bind fun _ => .pure proceeds

/-- A call that ends with a send has its own destination for the answer, and has not touched its
execution. -/
theorem Action.conclude_await {scope : Scope} {index : UInt8} {destination d : Option Destination}
    {positional : List Value} {named : List Argument} {m m' : Moment} {send : Send}
    (run : conclude scope index destination positional named m = (.ok (.await send d), m')) :
    d = destination ∧ m'.execution = m.execution := by
  unfold conclude at run
  cases slot : scope.environment.natives.slot index with
  | none =>
    rw [slot] at run
    cases run
  | some native =>
    rw [slot] at run
    dsimp only at run
    obtain ⟨c, m₁, rfl, invokes⟩ := invoke_run scope index native positional named m
    obtain ⟨reply, m₂, invoked, run⟩ := ok_of_bind run
    rw [invokes] at invoked
    cases invoked
    generalize (native.run c _).1 = reply at run
    cases reply with
    | value v =>
      obtain ⟨_, _, -, run⟩ := ok_of_bind run
      cases run
    | fault f => cases run
    | send s =>
      cases run
      exact ⟨rfl, rfl⟩

/-- **A statement that makes a send is a call**, and its execution waits behind that call. -/
theorem Action.statement_await {scope : Scope} {m m' : Moment} {send : Send}
    {destination : Option Destination}
    (run : statement scope m = (.ok (.await send destination), m')) :
    ∃ index positional named next,
      Instruction.decode m.execution.cursor =
        (.ok (.call index destination positional named), next) ∧
      m'.execution = { m.execution with cursor := next } := by
  generalize decoded : Instruction.decode m.execution.cursor = outcome
  match outcome with
  | (.error f, c) =>
    obtain ⟨g, after, place, fails, -⟩ := statement_fails scope decoded
    rw [fails] at run
    cases run
  | (.ok i, next) =>
    obtain ⟨place, -, same, stays⟩ := (statement_agrees_of_ok scope decoded).exists_place
    generalize performed : perform scope i ((opened scope m).moveTo next) = outcome at same stays
    rw [run] at same
    obtain ⟨x, after⟩ := outcome
    cases same
    rw [stays _ rfl, Moment.moveTo_cursor]
    cases i with
    | call index d positional named =>
      have opened := (Moment.Looked.opened scope m).moveTo next
      obtain ⟨ps, m₁, first, performed⟩ := ok_of_bind performed
      obtain ⟨ns, m₂, second, performed⟩ := ok_of_bind performed
      have looked := ((Within.mapM Moment.Looked.within_fetchOperand positional).of_run first).1
      have looked' := ((Within.mapM Moment.Looked.within_fetchNamed named).of_run second).1
      obtain ⟨rfl, same⟩ := conclude_await performed
      exact ⟨index, positional, named, next, rfl,
        same.trans (opened.trans (looked.trans looked')).execution⟩
    | _ => exact absurd rfl (gives_perform scope (fun _ _ _ _ e => by cases e) _ _ _ performed _ _)

/-! ## Destinations -/

/-- Has the destination a place that can be written for `e`? -/
def Destination.InRange (d : Destination) (w : World) (e : Execution) : Prop :=
  match d.place with
  | .localVar => d.index.toNat < e.frame.size
  | .property => ∃ o, w.objects.get? e.receiver = some o ∧ d.index.toNat < o.properties.size

theorem Destination.inRange_congr {d : Destination} {w w' : World} {e : Execution}
    (objects : w'.objects = w.objects) (h : d.InRange w e) : d.InRange w' e := by
  unfold InRange at h ⊢
  rw [objects]
  exact h

/-- `x'` is `x` once more; its frame may have been written, but only at the destination. -/
structure Execution.Receives (destination : Option Destination) (x x' : Execution) : Prop where
  same : x' = { x with frame := x'.frame }
  size : x'.frame.size = x.frame.size
  slots : ∀ i, (∀ d, destination = some d → d.place = .localVar → d.index.toNat ≠ i) →
    x'.frame.slots[i]? = x.frame.slots[i]?

theorem Execution.Receives.refl (destination : Option Destination) (x : Execution) :
    x.Receives destination x :=
  ⟨rfl, rfl, fun _ _ => rfl⟩

/-- Writing a local: in range it is written and reads back, and the others are as they were. -/
theorem Frame.set_spec (f : Frame) (index : UInt32) (value : Value) :
    (index.toNat < f.size → ∃ f', f.set index value = .ok f' ∧ f'.get index = .ok value ∧
      f'.size = f.size ∧ ∀ i, index.toNat ≠ i → f'.slots[i]? = f.slots[i]?) ∧
    (¬ index.toNat < f.size → f.set index value = .error (.localOutOfRange index f.size)) := by
  constructor
  · intro h
    have lt : index.toNat < f.slots.size := h
    refine ⟨_, dif_pos lt, ?_, Array.size_set lt, fun i hi => Array.getElem?_set_ne lt hi⟩
    rw [get, Array.getElem?_set_self lt]
  · intro h
    exact dif_neg h

/-- Writing a property: in range it is written and reads back. -/
theorem Object.setProperty_spec (o : Object) (index : UInt32) (value : Value) :
    (index.toNat < o.properties.size → ∃ o', o.setProperty index value = .ok o' ∧
      o'.property index = .ok value ∧ o'.deleted = o.deleted) ∧
    (¬ index.toNat < o.properties.size →
      o.setProperty index value = .error (.propertyOutOfRange index o.properties.size)) := by
  constructor
  · intro lt
    refine ⟨_, dif_pos lt, ?_, rfl⟩
    rw [property, Array.getElem?_set_self lt]
  · intro h
    exact dif_neg h

/-- **Giving a value to a waiting execution** writes its destination and nothing else of it.
If the destination is in range, or there is none, this succeeds, and the destination then reads
as the value. -/
theorem Action.assignIf_spec {destination : Option Destination} {value : Value} {m m' : Moment}
    {outcome : Except Fault Unit} (run : assignIf destination value m = (outcome, m')) :
    m.execution.Receives destination m'.execution ∧
      ((∀ d, destination = some d → d.InRange m.world m.execution) →
        outcome = .ok () ∧ ∀ d, destination = some d →
          (m'.world.read m'.execution.receiver m'.execution.frame d.place.kind d.index).1 =
            .ok value) := by
  cases destination with
  | none =>
    cases run
    exact ⟨.refl _ _, fun _ => ⟨rfl, fun d h => by cases h⟩⟩
  | some d =>
    obtain ⟨place, index⟩ := d
    rw [assignIf, assign_run] at run
    cases place with
    | localVar =>
      obtain ⟨inside, outside⟩ := m.execution.frame.set_spec index value
      dsimp only [World.write, Place.kind] at run
      by_cases h : index.toNat < m.execution.frame.size
      · obtain ⟨f', set, get, size, others⟩ := inside h
        rw [set] at run
        cases run
        refine ⟨⟨rfl, size, fun i hi => others i (hi _ rfl rfl)⟩, fun _ => ⟨rfl, fun d hd => ?_⟩⟩
        cases hd
        exact get
      · rw [outside h] at run
        cases run
        exact ⟨.refl _ _, fun range => absurd (range _ rfl) h⟩
    | property =>
      dsimp only [World.write, Place.kind] at run
      cases found : m.world.objects.get? m.execution.receiver with
      | none =>
        rw [found] at run
        cases run
        refine ⟨.refl _ _, fun range => ?_⟩
        obtain ⟨o, ho, -⟩ := range _ rfl
        rw [found] at ho
        cases ho
      | some o =>
        rw [found] at run
        dsimp only at run
        obtain ⟨inside, outside⟩ := o.setProperty_spec index value
        by_cases h : index.toNat < o.properties.size
        · obtain ⟨o', set, get, deleted⟩ := inside h
          rw [set] at run
          cases run
          refine ⟨⟨rfl, rfl, fun _ _ => rfl⟩, fun _ => ⟨rfl, fun d hd => ?_⟩⟩
          cases hd
          have put : (m.world.putObject m.execution.receiver o').objects.get?
              m.execution.receiver = some o' := Population.get?_put found deleted
          dsimp only [World.read, Place.kind]
          rw [put]
          exact get
        · rw [outside h] at run
          cases run
          refine ⟨.refl _ _, fun range => ?_⟩
          obtain ⟨o₁, ho, lt⟩ := range _ rfl
          rw [found] at ho
          cases ho
          exact absurd lt h

end MessageMachine
