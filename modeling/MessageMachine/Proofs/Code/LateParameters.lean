import MessageMachine.Proofs.Code.Counts

/-!
# Parameters declared late

Parameters may be declared at any time while code is being written.  For the targets of gotos that
makes no difference, as they are moved on by the length of the header when the body is finished.
For the numbers of plain locals it does.  Such a number counts the parameters declared so far, it is
given out at once, and nothing moves it on: each parameter that is declared after it takes it one
place further down in the frame.

An `Order` is one thing that the assembler is told to do, and `Order.index?` the number that it
gives out.  What an order does to the parameters and to the count of locals is said once
(`Order.run_write`), and from there for all orders in a row (`Order.run_writeAll`).  So the number
given out for a plain local falls short of its slot by the number of parameters that are declared
later, and it is right just if there are none (`Order.plainLocal_short_by_later`).
-/

namespace MessageMachine

/-! ## Slots of a frame -/

namespace Handler

variable (h : Handler)

/-- The slot of the `n`-th plain local. -/
def slotOfLocal (n : Nat) : Nat := h.parameters.length + n

variable (track : Bool) (arguments : List Argument)

/-- The first slots of a frame are those of the parameters. -/
theorem getElem?_bind_parameter {i : Nat} (hi : i < h.parameters.length) :
    (h.bind track arguments).slots[i]? =
      h.parameters[i]?.map fun p => ⟨p.valueIn arguments, true⟩ := by
  rw [bind, List.getElem?_toArray, List.getElem?_append_left (by rwa [List.length_map]),
    List.getElem?_map]

/-- The slots behind them are those of the plain locals. -/
theorem getElem?_bind_slotOfLocal {n : Nat} (hn : n < h.locals) :
    (h.bind track arguments).slots[h.slotOfLocal n]? = some (Frame.blank track) := by
  rw [bind, List.getElem?_toArray, slotOfLocal,
    List.getElem?_append_right (by rw [List.length_map]; omega), List.length_map,
    Nat.add_sub_cancel_left, List.getElem?_replicate, if_pos hn]

/-- A number that falls short of the slot of a plain local denotes an earlier one, or a parameter if
there is no local so far down. -/
theorem getElem?_bind_of_short {index n missing : Nat} (hn : n < h.locals)
    (short : index + missing = h.slotOfLocal n) :
    (h.bind track arguments).slots[index]? =
      if n < missing then h.parameters[index]?.map fun p => ⟨p.valueIn arguments, true⟩
      else some (Frame.blank track) := by
  rw [slotOfLocal] at short
  split_ifs with taken
  · exact h.getElem?_bind_parameter track arguments (by omega)
  · have slot : index = h.slotOfLocal (n - missing) := by
      rw [slotOfLocal]
      omega
    rw [slot]
    exact h.getElem?_bind_slotOfLocal track arguments (by omega)

end Handler

/-- A handler that is accepted has the locals and the parameters of the assembly, if the byte for
the count of parameters can hold it. -/
theorem Assembly.declared_of_accepted {a : Assembly} (few : a.declared.length < 256)
    {id : MessageId} {name : String} {h : Handler}
    (accepted : a.toHandler id name = .ok h) :
    h.locals = a.locals.toNat ∧ h.parameters = a.declared := by
  rw [length_declared] at few
  by_cases fits : a.locals.toNat + a.seen.parameters.length ≤ Limits.locals
  · rw [a.toHandler_of_fits fits] at accepted
    cases accepted
    refine ⟨rfl, ?_⟩
    show a.seen.declared = a.declared
    rw [declared_seen, length_declared, Nat.mod_eq_of_lt few, ← length_declared, List.take_length]
  · rw [length_parameters_seen, Nat.not_le] at fits
    rw [a.toHandler_of_exceeds fits] at accepted
    cases accepted

/-! ## What the assembler is told -/

/-- One thing that the assembler is told to do. -/
inductive Order where
  | parameter (id : ParameterId) (default : Value)
  /-- Asks for the number of a plain local. -/
  | plainLocal (n : UInt32)
  | sentence (s : Sentence)
  /-- A goto forward. -/
  | goto (condition : Option (Bool × Operand))
  | gotoBack (offset : Nat)
  | bindLabel (label : Label)
  /-- Emits bytes as they stand. -/
  | raw (bytes : List UInt8)

namespace Order

/-- Does what was ordered, and gives the number of a local, if one is given out. -/
def write : Order → Assembler (Option UInt32)
  | parameter id default => some <$> Assembler.parameter id default
  | plainLocal n => some <$> Assembler.plainLocal n
  | sentence s => (fun _ => none) <$> s.write
  | goto condition => (fun _ => none) <$> Assembler.gotoWhen condition
  | gotoBack offset => (fun _ => none) <$> Assembler.gotoBack offset
  | bindLabel label => (fun _ => none) <$> Assembler.bindLabel label
  | raw bytes => (fun _ => none) <$> Assembler.emit bytes

def writeAll (orders : List Order) : Assembler (List (Option UInt32)) := orders.mapM write

/-- The parameter that is declared. -/
def parameter? : Order → Option Parameter
  | parameter id default => some ⟨id, default⟩
  | _ => none

/-- The number that is given out after `before` parameters. -/
def index? (before : Nat) : Order → Option UInt32
  | parameter _ _ => some (.ofNat before)
  | plainLocal n => some (.ofNat before + n)
  | _ => none

/-- There is a constant for the value in the order, if it has one. -/
def Packs : Order → Prop
  | parameter _ default => default.Packable
  | sentence s => ∃ i, s.instruction = .ok i
  | _ => True

/-- The parameters that are declared, in order. -/
def parametersOf (orders : List Order) : List Parameter := orders.filterMap parameter?

theorem parametersOf_cons (o : Order) (orders : List Order) :
    parametersOf (o :: orders) = o.parameter?.toList ++ parametersOf orders := by
  cases declares : o.parameter? <;> simp [parametersOf, declares]

variable {o : Order} {orders : List Order} {a a' : Assembly}

/-- What an order that was carried out has done, besides what it emitted. -/
structure Done (o : Order) (a : Assembly) (given : Option UInt32) (a' : Assembly) : Prop where
  packs : o.Packs
  given : given = o.index? a.declared.length
  locals : a'.locals = a.locals
  declared : a'.declared = a.declared ++ o.parameter?.toList

/-- An order that neither declares nor gives out anything. -/
theorem Done.plain (packs : o.Packs) (none : ∀ before, o.index? before = none)
    (undeclared : o.parameter? = .none) (locals : a'.locals = a.locals)
    (parameters : a'.parameters = a.parameters) : o.Done a .none a' where
  packs
  given := (none _).symm
  locals
  declared := by
    rw [undeclared, Option.toList_none, List.append_nil, Assembly.declared, parameters]
    rfl

/-- **An order is carried out, unless there is no constant for its value.** -/
theorem run_write (o : Order) (a : Assembly) :
    match o.write.run a with
    | .ok (given, a') => o.Done a given a'
    | .error _ => ¬ o.Packs := by
  cases o with
  | parameter id default =>
    rw [write, StateT.run_map, Assembler.parameter]
    cases packed : default.packed? with
    | none => exact fun packs => by cases packed.symm.trans (if_pos packs)
    | some c =>
      have value := Value.ofPacked_of_packed? packed
      refine ⟨?_, ?_, rfl, ?_⟩
      · exact value ▸ Value.packable_ofPacked c
      · rw [index?, Assembly.length_declared]
      · show List.map _ (a.parameters ++ [(id, c)]) = _
        rw [List.map_append, ← value]
        rfl
  | plainLocal n =>
    refine ⟨trivial, ?_, rfl, (List.append_nil _).symm⟩
    rw [index?, Assembly.length_declared]
  | sentence s =>
    rw [write, StateT.run_map, Sentence.run_write]
    cases instruction : s.instruction with
    | error u =>
      rintro ⟨i, packs⟩
      cases instruction.symm.trans packs
    | ok i => exact .plain ⟨i, instruction⟩ (fun _ => rfl) rfl rfl rfl
  | goto condition =>
    rw [write, StateT.run_map, Assembler.run_gotoWhen]
    exact .plain trivial (fun _ => rfl) rfl rfl rfl
  | gotoBack offset =>
    rw [write, StateT.run_map, Assembler.run_gotoBack]
    exact .plain trivial (fun _ => rfl) rfl rfl rfl
  | bindLabel label | raw bytes => exact .plain trivial (fun _ => rfl) rfl rfl rfl

/-- What orders have done that were carried out in a row.  Each has given out the number that
belongs to the parameters that were declared before it. -/
structure AllDone (orders : List Order) (a : Assembly) (given : List (Option UInt32))
    (a' : Assembly) : Prop where
  packs : ∀ o ∈ orders, o.Packs
  given : ∀ i, given[i]? = orders[i]?.map
    (index? (a.declared.length + (parametersOf (orders.take i)).length))
  locals : a'.locals = a.locals
  declared : a'.declared = a.declared ++ parametersOf orders

theorem AllDone.cons {given : Option UInt32} {more : List (Option UInt32)} {a'' : Assembly}
    (first : o.Done a given a') (rest : AllDone orders a' more a'') :
    AllDone (o :: orders) a (given :: more) a'' where
  packs := List.forall_mem_cons.mpr ⟨first.packs, rest.packs⟩
  given i := by
    cases i with
    | zero => simp [first.given, parametersOf]
    | succ i =>
      rw [List.getElem?_cons_succ, List.getElem?_cons_succ, rest.given, first.declared,
        List.take_succ_cons, parametersOf_cons, List.length_append, List.length_append,
        Nat.add_assoc]
  locals := rest.locals.trans first.locals
  declared := by rw [rest.declared, first.declared, List.append_assoc, parametersOf_cons]

/-- **Orders are carried out one after another**, unless there is no constant for some value. -/
theorem run_writeAll (orders : List Order) (a : Assembly) :
    match (writeAll orders).run a with
    | .ok (given, a') => AllDone orders a given a'
    | .error _ => ∃ o ∈ orders, ¬ o.Packs := by
  induction orders generalizing a with
  | nil => exact ⟨by simp, by simp, rfl, (List.append_nil _).symm⟩
  | cons o orders ih =>
    have step := run_write o a
    rw [writeAll, List.mapM_cons, StateT.run_bind]
    cases first : o.write.run a with
    | error u =>
      rw [first] at step
      exact ⟨o, List.mem_cons_self, step⟩
    | ok r =>
      obtain ⟨given, a'⟩ := r
      rw [first] at step
      have all := ih a'
      rw [writeAll] at all
      show match (StateT.run (List.mapM write orders >>= fun more => pure (given :: more)) a') with
        | .ok (given, a') => _
        | .error _ => _
      rw [StateT.run_bind]
      cases rest : StateT.run (List.mapM write orders) a' with
      | error u =>
        rw [rest] at all
        obtain ⟨o', mem, unpackable⟩ := all
        exact ⟨o', List.mem_cons_of_mem _ mem, unpackable⟩
      | ok r =>
        rw [rest] at all
        exact .cons step all

/-! ## The numbers of locals -/

/-- The parameters that are declared after the order in place `i`. -/
def later (orders : List Order) (i : Nat) : Nat := (parametersOf (orders.drop (i + 1))).length

/-- The parameters before an order, the one that it declares, and those after it are
all there are. -/
theorem parametersOf_eq {i : Nat} (h : orders[i]? = some o) :
    parametersOf orders = parametersOf (orders.take i) ++
      (o.parameter?.toList ++ parametersOf (orders.drop (i + 1))) := by
  obtain ⟨hi, rfl⟩ := List.getElem?_eq_some_iff.mp h
  rw [← parametersOf_cons, List.getElem_cons_drop, parametersOf, parametersOf, parametersOf,
    ← List.filterMap_append, List.take_append_drop]

/-- **The number of a plain local falls short of its slot by the number of parameters declared
later.**  Any orders are given to the assembler for a body with the given count of plain locals.  If
they are all carried out, and the handler is accepted and declares fewer than 256 parameters, then:

* The number that was given out for the `n`-th plain local, and the parameters that are declared
  later, add up to the slot of that local.  So the number is right just if there are none of them.
  Otherwise it is the slot of another plain local, or, if more than `n` of them come later, that
  of a parameter.
* The number that was given out for a parameter is the place of that parameter in the handler,
  whatever is declared later. -/
theorem plainLocal_short_by_later (orders : List Order) (locals : UInt8) (id : MessageId)
    (name : String) :
    match (writeAll orders).run { locals } with
    | .error _ => ∃ o ∈ orders, ¬ o.Packs
    | .ok (given, a) => a.declared.length < 256 → ∀ h, a.toHandler id name = .ok h →
      h.locals = locals.toNat ∧ h.parameters = parametersOf orders ∧ ∀ i,
        (∀ n : UInt32, orders[i]? = some (.plainLocal n) → n.toNat < h.locals →
          ∃ index, given[i]? = some (some index) ∧
            index.toNat + later orders i = h.slotOfLocal n.toNat ∧
            (index.toNat = h.slotOfLocal n.toNat ↔ later orders i = 0) ∧
            ∀ track arguments, (h.bind track arguments).slots[index.toNat]? =
              if n.toNat < later orders i then
                h.parameters[index.toNat]?.map fun p => ⟨p.valueIn arguments, true⟩
              else some (Frame.blank track)) ∧
        ∀ parameter default, orders[i]? = some (.parameter parameter default) →
          ∃ index, given[i]? = some (some index) ∧
            h.parameters[index.toNat]? = some ⟨parameter, default⟩ := by
  have all := run_writeAll orders { locals }
  cases run : (writeAll orders).run { locals } with
  | error u => rwa [run] at all
  | ok r =>
    obtain ⟨given, a⟩ := r
    rw [run] at all
    intro few h accepted
    obtain ⟨count, declared⟩ := Assembly.declared_of_accepted few accepted
    rw [all.locals] at count
    have parameters : h.parameters = parametersOf orders := declared.trans all.declared
    have number {i : Nat} {o : Order} (asked : orders[i]? = some o) :
        given[i]? = some (o.index? (parametersOf (orders.take i)).length) := by
      rw [all.given, asked]
      exact congrArg (fun before => some (o.index? before)) (Nat.zero_add _)
    have frame : h.locals + h.parameters.length ≤ 50 := h.frameSize_le
    refine ⟨count, parameters,
      fun i => ⟨fun n asked plain => ?_, fun parameter default asked => ?_⟩⟩
    · have split : h.parameters.length =
          (parametersOf (orders.take i)).length + later orders i := by
        rw [parameters, parametersOf_eq asked, List.length_append]
        exact congrArg _ (congrArg List.length (List.nil_append _))
      have sum : (UInt32.ofNat (parametersOf (orders.take i)).length + n).toNat =
          (parametersOf (orders.take i)).length + n.toNat := by
        rw [UInt32.toNat_add, UInt32.toNat_ofNat', Nat.mod_add_mod, Nat.mod_eq_of_lt (by omega)]
      have short : (UInt32.ofNat (parametersOf (orders.take i)).length + n).toNat +
          later orders i = h.slotOfLocal n.toNat := by
        rw [sum, Handler.slotOfLocal]
        omega
      exact ⟨_, number asked, short, by omega,
        fun track arguments => h.getElem?_bind_of_short track arguments plain short⟩
    · have split : h.parameters = parametersOf (orders.take i) ++
          ⟨parameter, default⟩ :: parametersOf (orders.drop (i + 1)) :=
        parameters.trans (parametersOf_eq asked)
      have place : (parametersOf (orders.take i)).length < UInt32.size := by
        rw [split, List.length_append] at frame
        simp only [UInt32.size]
        omega
      refine ⟨_, number asked, ?_⟩
      rw [UInt32.toNat_ofNat_of_lt' place, split, List.getElem?_append_right (Nat.le_refl _),
        Nat.sub_self]
      rfl

/-- A parameter that is declared after a plain local was asked for is given the same number. -/
theorem late_parameter_takes_slot :
    let orders : List Order :=
      [.plainLocal 0, .parameter ⟨1⟩ .nil, .sentence (.leaveConstant .nil)]
    ∃ a h, (writeAll orders).run { locals := 1 } = .ok ([some 0, some 0, none], a) ∧
      a.toHandler ⟨1⟩ "Built" = .ok h ∧ h.locals = 1 ∧ h.parameters = [⟨⟨1⟩, .nil⟩] ∧
      h.slotOfLocal 0 = 1 := by
  refine ⟨_, _, rfl, rfl, ?_, ?_, ?_⟩ <;> decide +kernel

end Order

end MessageMachine
