import MessageMachine.Proofs.Statement.InPlace
import MessageMachine.Proofs.Statement.Invocation
import MessageMachine.Proofs.Statement.Lockstep
import MessageMachine.Proofs.Statement.Extent

/-!
# Contracts for instructions

To follow a piece of code from statement to statement one needs little of the moments that it goes
through: where the execution stands, what its locals are, and which objects, classes and posts there
are.  `Standing` and `Scene` keep just this.  The journal, the clock and the counters are left out,
and so is whether a local counts as written.

`Action.Yields` is a contract for an action: from every moment with one standing and scene it
succeeds, with one result, and ends with another standing and scene.  There is one contract for
each kind of instruction.  What a contract asks for is that operands have values
(`Operand.valueIn`) and that destinations can be written (`Destination.written`); for code that is
at hand, both can be worked out.

A variable of a class has no value here: reading it may refresh the cache of an object, which is a
change of the scene.
-/

namespace MessageMachine

/-! ## What code depends on -/

/-- Where an execution stands, and the values of its locals. -/
structure Standing where
  receiver : ObjectId
  codeStart : Nat
  cursor : Cursor
  locals : List Value

/-- What code can reach of a world. -/
structure Scene where
  objects : Population
  classes : Directory
  posts : PostQueue

def Execution.standing (e : Execution) : Standing where
  receiver := e.receiver
  codeStart := e.codeStart
  cursor := e.cursor
  locals := e.frame.values

def World.scene (w : World) : Scene where
  objects := w.objects
  classes := w.classes
  posts := w.posts

/-- The standing with the cursor elsewhere. -/
def Standing.at (s : Standing) (c : Cursor) : Standing := { s with cursor := c }

/-- The moment has the standing and the scene. -/
structure Moment.Shows (s : Standing) (w : Scene) (m : Moment) : Prop where
  standing : m.execution.standing = s
  scene : m.world.scene = w

theorem Moment.Shows.moveTo {s : Standing} {w : Scene} {m : Moment} (h : m.Shows s w) (c : Cursor) :
    (m.moveTo c).Shows (s.at c) w :=
  ⟨congrArg (Standing.at · c) h.standing, h.scene⟩

theorem Moment.Shows.opened {s : Standing} {w : Scene} {m : Moment} (h : m.Shows s w)
    (scope : Scope) : (Action.opened scope m).Shows s w := by
  unfold Action.opened
  split
  · exact h
  split
  · exact ⟨h.standing, h.scene⟩
  · exact h

/-- The value of an operand. -/
def Operand.valueIn (o : Operand) (s : Standing) (w : Scene) : Option Value :=
  match o.kind with
  | .localVar => s.locals[o.data.toNat]?
  | .constant => some (.ofPacked o.data)
  | .property => (w.objects.get? s.receiver).bind fun x => (x.property o.data).toOption
  | .classVar => none

/-- The argument that a named operand passes. -/
def NamedOperand.argumentIn (n : NamedOperand) (s : Standing) (w : Scene) : Option Argument :=
  (n.operand.valueIn s w).map fun v => ⟨n.name, v⟩

/-- What writing a destination makes of standing and scene. -/
def Destination.written (d : Destination) (v : Value) (s : Standing) (w : Scene) :
    Option (Standing × Scene) :=
  match d.place with
  | .localVar =>
    if d.index.toNat < s.locals.length then
      some ({ s with locals := s.locals.set d.index.toNat v }, w)
    else none
  | .property =>
    (w.objects.get? s.receiver).bind fun x => (x.setProperty d.index v).toOption.map fun x =>
      (s, { w with objects := w.objects.put s.receiver x })

theorem eq_ok_of_toOption {ε α : Type} {x : Except ε α} {a : α} (h : x.toOption = some a) :
    x = .ok a := by
  cases x with
  | ok b =>
    cases h
    rfl
  | error e => cases h

/-- An operand is read as its value. -/
theorem Moment.read_of_valueIn {m : Moment} {o : Operand} {v : Value}
    (value : o.valueIn m.execution.standing m.world.scene = some v) :
    m.world.read m.execution.receiver m.execution.frame o.kind o.data = (.ok v, m.world) := by
  obtain ⟨kind, data⟩ := o
  cases kind with
  | localVar =>
    have value : m.execution.frame.values[data.toNat]? = some v := value
    rw [World.read, Frame.get_eq, value]
  | constant =>
    cases value
    rfl
  | property =>
    obtain ⟨x, found, value⟩ := Option.bind_eq_some_iff.mp value
    have found : m.world.objects.get? m.execution.receiver = some x := found
    rw [World.read, found]
    exact Prod.ext (eq_ok_of_toOption value) rfl
  | classVar => cases value

/-- A local that there is can be written. -/
theorem Frame.exists_set {f : Frame} {index : UInt32} (inside : index.toNat < f.values.length)
    (v : Value) :
    ∃ f', f.set index v = .ok f' ∧ f'.values = f.values.set index.toNat v := by
  have inside : index.toNat < f.slots.size := by
    rw [length_values] at inside
    exact inside
  refine ⟨_, dif_pos inside, ?_⟩
  rw [values, values, Array.toList_set, List.map_set]

/-- A destination is written as it says. -/
theorem Moment.write_of_written {m : Moment} {d : Destination} {v : Value} {s : Standing}
    {w : Scene} (written : d.written v m.execution.standing m.world.scene = some (s, w)) :
    ∃ frame world,
      m.world.write m.execution.receiver m.execution.frame d.place.kind d.index v =
          (.ok frame, world) ∧
        Execution.standing { m.execution with frame } = s ∧ world.scene = w := by
  obtain ⟨place, index⟩ := d
  cases place with
  | localVar =>
    obtain ⟨inside, pair⟩ := Option.ite_none_right_eq_some.mp written
    cases pair
    obtain ⟨frame, set, values⟩ := Frame.exists_set inside v
    refine ⟨frame, m.world, Prod.ext set rfl, ?_, rfl⟩
    rw [Execution.standing, values]
    rfl
  | property =>
    obtain ⟨x, found, written⟩ := Option.bind_eq_some_iff.mp written
    obtain ⟨x', set, pair⟩ := Option.map_eq_some_iff.mp written
    cases pair
    have found : m.world.objects.get? m.execution.receiver = some x := found
    have set : x.setProperty index v = .ok x' := eq_ok_of_toOption set
    refine ⟨m.execution.frame, m.world.putObject m.execution.receiver x', ?_, rfl, rfl⟩
    simp only [World.write, Place.kind, found, set]

/-! ## Contracts for actions -/

/-- From every moment with the standing `s` and the scene `w` the action succeeds with `x`, and ends
with the standing `s'` and the scene `w'`. -/
def Action.Yields {α : Type} (a : Action α) (s : Standing) (w : Scene) (x : α) (s' : Standing)
    (w' : Scene) : Prop :=
  ∀ m : Moment, m.Shows s w → ∃ m', a m = (.ok x, m') ∧ m'.Shows s' w'

namespace Action.Yields

variable {α β : Type} {s s' s'' : Standing} {w w' w'' : Scene}

theorem pure (x : α) : Yields (Pure.pure x : Action α) s w x s w := fun m h => ⟨m, rfl, h⟩

theorem bind {a : Action α} {k : α → Action β} {x : α} {y : β} (ha : Yields a s w x s' w')
    (hk : Yields (k x) s' w' y s'' w'') : Yields (a >>= k) s w y s'' w'' := by
  intro m h
  obtain ⟨m', run, h'⟩ := ha m h
  obtain ⟨m'', run', h''⟩ := hk m' h'
  exact ⟨m'', (bind_of_ok run).trans run', h''⟩

theorem lift {x : Except Fault α} {y : α} (h : x = .ok y) :
    Yields (liftM x : Action α) s w y s w := by
  subst h
  exact pure y

theorem mapM {f : α → Action β} {g : α → Option β}
    (hf : ∀ a b, g a = some b → Yields (f a) s w b s w) :
    ∀ {as : List α} {bs : List β}, as.mapM g = some bs → Yields (as.mapM f) s w bs s w
  | [], bs, h => by
    cases h
    exact pure []
  | a :: as, bs, h => by
    rw [List.mapM_cons] at h
    obtain ⟨b, hb, h⟩ := Option.bind_eq_some_iff.mp h
    obtain ⟨bs', hbs, h⟩ := Option.bind_eq_some_iff.mp h
    cases h
    rw [List.mapM_cons]
    exact (hf a b hb).bind ((mapM hf hbs).bind (pure _))

/-! ### Operands and destinations -/

theorem fetchOperand {o : Operand} {v : Value} (value : o.valueIn s w = some v) :
    Yields (Action.fetchOperand o) s w v s w := by
  rintro m ⟨rfl, rfl⟩
  have read := Moment.read_of_valueIn value
  rw [Action.fetchOperand, fetch_run, fetched, read]
  refine ⟨_, rfl, rfl, ?_⟩
  dsimp only
  split <;> rfl

theorem fetchNamed {n : NamedOperand} {a : Argument} (passes : n.argumentIn s w = some a) :
    Yields (Action.fetchNamed n) s w a s w := by
  obtain ⟨v, value, rfl⟩ := Option.map_eq_some_iff.mp passes
  exact (fetchOperand value).bind (pure _)

theorem assign {d : Destination} {v : Value} (written : d.written v s w = some (s', w')) :
    Yields (Action.assign d v) s w () s' w' := by
  rintro m ⟨rfl, rfl⟩
  obtain ⟨frame, world, write, standing, scene⟩ := Moment.write_of_written written
  rw [assign_run, write]
  exact ⟨_, rfl, standing, scene⟩

/-! ### Branches and lines -/

theorem jump {target : UInt32} (above : s.codeStart ≤ target.toNat)
    (below : target.toNat < s.cursor.code.size) :
    Yields (Action.jump target) s w () (s.at ⟨s.cursor.code, target.toNat⟩) w := by
  rintro m ⟨rfl, rfl⟩
  rw [jump_eq]
  exact ⟨_, if_pos ⟨above, below⟩, rfl, rfl⟩

theorem jumpIf_taken {taken : Bool} {target : UInt32} (h : taken = true)
    (above : s.codeStart ≤ target.toNat) (below : target.toNat < s.cursor.code.size) :
    Yields (Action.jumpIf taken target) s w () (s.at ⟨s.cursor.code, target.toNat⟩) w := by
  subst h
  exact jump above below

theorem jumpIf_passed {taken : Bool} {target : UInt32} (h : taken = false) :
    Yields (Action.jumpIf taken target) s w () s w := by
  subst h
  exact pure ()

theorem setLine (line : UInt32) : Yields (Action.setLine line) s w () s w :=
  fun _ h => ⟨_, rfl, h.standing, h.scene⟩

end Action.Yields

/-! ## Contracts for native functions -/

/-- In the scene `w` the function replies to its operands with `r`, and leaves the scene `w'`. -/
def Native.Replies (n : Native) (positional : List Value) (named : List Argument) (w : Scene)
    (r : Reply) (w' : Scene) : Prop :=
  ∀ (c : Call) (world : World), c.positional = positional → c.named = named → world.scene = w →
    (n.run c world).1 = r ∧ (n.run c world).2.scene = w'

namespace Native.Replies

variable {positional : List Value} {named : List Argument} {w : Scene} {a b : Value}
  {receiver : ObjectId} {message : MessageId}

/-- A call is understood as the send that its operands describe. -/
theorem send_eq {c : Call} (operands : c.positional = [a, b]) (object : a.asObject? = some receiver)
    (method : b.asMessage? = some message) : c.send = .ok ⟨receiver, message, c.named⟩ := by
  have first : c.operand 0 = .ok a := by
    rw [Call.operand, operands]
    rfl
  have second : c.operand 1 = .ok b := by
    rw [Call.operand, operands]
    rfl
  have receiver : c.object 0 = .ok receiver := by
    simp only [Call.object, first, bind, Except.bind, object]
  have message : c.message 1 = .ok message := by
    simp only [Call.message, second, bind, Except.bind, method]
  rw [Call.send, receiver, message]
  rfl

theorem sendMessage (object : a.asObject? = some receiver) (method : b.asMessage? = some message) :
    Native.sendMessage.Replies [a, b] named w (.send ⟨receiver, message, named⟩) w := by
  rintro c world operands rfl rfl
  rw [Native.sendMessage]
  dsimp only
  rw [send_eq operands object method]
  exact ⟨rfl, rfl⟩

theorem postMessage {posts : PostQueue} (object : a.asObject? = some receiver)
    (method : b.asMessage? = some message)
    (room : w.posts.push? ⟨receiver, message, named⟩ = some posts) :
    Native.postMessage.Replies [a, b] named w (.value (.int 1)) { w with posts } := by
  rintro c world operands rfl rfl
  have room : world.posts.push? ⟨receiver, message, c.named⟩ = some posts := room
  rw [Native.postMessage]
  dsimp only
  rw [send_eq operands object method]
  dsimp only
  rw [room]
  exact ⟨rfl, rfl⟩

theorem debug : Native.debug.Replies positional named w (.value .nil) w :=
  fun _ _ _ _ h => ⟨rfl, h⟩

end Native.Replies

/-! ## Contracts for instructions -/

namespace Action.Yields

variable {s s' : Standing} {w w' : Scene} {scope : Scope} {index : UInt8} {native : Native}

theorem unary {op : UnaryOp} {d : Destination} {o : Operand} {u v : Value}
    (value : o.valueIn s w = some u) (result : op.apply u = .ok v)
    (written : d.written v s w = some (s', w')) :
    Yields (perform scope (.unary op d o)) s w .proceed s' w' :=
  (fetchOperand value).bind ((lift result).bind ((assign written).bind (pure _)))

theorem binary {op : BinaryOp} {d : Destination} {left right : Operand} {l r v : Value}
    (value : left.valueIn s w = some l) (value' : right.valueIn s w = some r)
    (result : op.apply l r = .ok v) (written : d.written v s w = some (s', w')) :
    Yields (perform scope (.binary op d left right)) s w .proceed s' w' :=
  (fetchOperand value).bind ((fetchOperand value').bind
    ((lift result).bind ((assign written).bind (pure _))))

theorem goto {target : UInt32} (above : s.codeStart ≤ target.toNat)
    (below : target.toNat < s.cursor.code.size) :
    Yields (perform scope (.goto target)) s w .proceed (s.at ⟨s.cursor.code, target.toNat⟩) w :=
  (jump above below).bind (pure _)

theorem gotoIf_taken {wanted : Bool} {target : UInt32} {o : Operand} {v : Value}
    (value : o.valueIn s w = some v) (truth : v.isTrue = wanted)
    (above : s.codeStart ≤ target.toNat) (below : target.toNat < s.cursor.code.size) :
    Yields (perform scope (.gotoIf wanted target o)) s w .proceed
      (s.at ⟨s.cursor.code, target.toNat⟩) w :=
  (fetchOperand value).bind ((jumpIf_taken (beq_iff_eq.mpr truth) above below).bind (pure _))

theorem gotoIf_passed {wanted : Bool} {target : UInt32} {o : Operand} {v : Value}
    (value : o.valueIn s w = some v) (truth : v.isTrue = !wanted) :
    Yields (perform scope (.gotoIf wanted target o)) s w .proceed s w := by
  have passed : (v.isTrue == wanted) = false := by
    rw [truth]
    cases wanted <;> rfl
  exact (fetchOperand value).bind ((jumpIf_passed passed).bind (pure _))

theorem line (number : UInt32) : Yields (perform scope (.line number)) s w .proceed s w :=
  (setLine number).bind (pure _)

theorem leave {o : Operand} {v : Value} (value : o.valueIn s w = some v) :
    Yields (perform scope (.leave o)) s w (.leave (.value v)) s w :=
  (fetchOperand value).bind (pure _)

theorem invoke {values : List Value} {arguments : List Argument} {r : Reply}
    (replies : native.Replies values arguments w r w') :
    Yields (Action.invoke scope index native values arguments) s w r s w' := by
  intro m h
  have scene : (countedCall index native m).world.scene = w := h.scene
  obtain ⟨reply, after⟩ := replies
    (seenCall scope native values arguments (countedCall index native m)) _ rfl rfl scene
  rw [invoke_eq, reply]
  exact ⟨_, rfl, h.standing, after⟩

section

variable {positional : List Operand} {named : List NamedOperand} {values : List Value}
  {arguments : List Argument} (slot : scope.environment.natives.slot index = some native)
  (operands : positional.mapM (fun o => o.valueIn s w) = some values)
  (passed : named.mapM (fun n => n.argumentIn s w) = some arguments)

include slot operands passed

/-- A call that does not keep its value. -/
theorem call {v : Value} (replies : native.Replies values arguments w (.value v) w') :
    Yields (perform scope (.call index none positional named)) s w .proceed s w' := by
  refine (mapM (fun _ _ => fetchOperand) operands).bind
    ((mapM (fun _ _ => fetchNamed) passed).bind ?_)
  rw [conclude, slot]
  exact (invoke replies).bind ((pure _).bind (pure _))

/-- A call that makes a send. -/
theorem callSend {destination : Option Destination} {send : Send}
    (replies : native.Replies values arguments w (.send send) w') :
    Yields (perform scope (.call index destination positional named)) s w
      (.await send destination) s w' := by
  refine (mapM (fun _ _ => fetchOperand) operands).bind
    ((mapM (fun _ _ => fetchNamed) passed).bind ?_)
  rw [conclude, slot]
  exact (invoke replies).bind (pure _)

end

/-- **A statement does what its instruction says**, and so keeps the contract of it. -/
theorem statement {i : Instruction} {c : Cursor} {next : Next}
    (decoded : Instruction.decode s.cursor = (.ok i, c))
    (performs : Yields (perform scope i) (s.at c) w next s' w') :
    Yields (Action.statement scope) s w next s' w' := by
  intro m shows
  have agrees := statement_agrees_of_ok scope (m := m) (shows.standing ▸ decoded)
  obtain ⟨m', run, shows'⟩ := performs _ ((shows.opened scope).moveTo c)
  rw [run] at agrees
  generalize outcome : Action.statement scope m = x at agrees
  cases agrees
  exact ⟨m', rfl, shows'⟩

end Action.Yields

end MessageMachine
