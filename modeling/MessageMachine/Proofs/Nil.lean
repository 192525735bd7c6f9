import MessageMachine.Arithmetic
import MessageMachine.Native
import MessageMachine.Code.Instruction
import MessageMachine.Proofs.Footprint

/-!
# Nil without a payload

A nil value may carry a payload, and then it counts as true and differs from nil.  A value is
*plain* when it is not such a value (`Value.Plain`); there is just one plain nil, and it is false
and equal to itself.

No operator makes anything but a plain value of plain values, and so does nothing else that a script
can do but to take a constant out of its code.  This module says it of values and of worlds: reading
in a world of plain values gives plain values, and writing them keeps it so.
-/

namespace MessageMachine

/-! ## Values -/

/-- The value is no nil with a payload. -/
def Value.Plain (v : Value) : Prop := v.tag = .nil → v.payload = 0

namespace Value.Plain

instance (v : Value) : Decidable v.Plain := inferInstanceAs (Decidable (_ → _))

theorem nil : Value.nil.Plain := fun _ => rfl

theorem of_int (w : BitVec 60) : (Value.mk .int w).Plain := fun h => by cases h

theorem truth (b : Bool) : (Value.truth b).Plain := of_int _

/-- There is one plain nil. -/
theorem eq_nil {v : Value} (h : v.Plain) (isNil : v.tag = .nil) : v = .nil := by
  obtain ⟨tag, payload⟩ := v
  cases isNil
  exact congrArg (Value.mk .nil) (h rfl)

/-- A plain nil is false. -/
theorem isTrue_eq_false {v : Value} (h : v.Plain) (isNil : v.tag = .nil) : v.isTrue = false := by
  rw [h.eq_nil isNil]
  rfl

end Value.Plain

/-- A unary operator gives its operand or an integer. -/
theorem UnaryOp.plain_of_apply {op : UnaryOp} {source v : Value} (h : source.Plain)
    (result : op.apply source = .ok v) : v.Plain := by
  cases op with
  | copy =>
    cases result
    exact h
  | not =>
    cases result
    exact .truth _
  | negate =>
    cases w : UnaryOp.negate.integer source <;> rw [apply, w] at result <;> cases result
    exact .of_int _
  | complement =>
    cases w : UnaryOp.complement.integer source <;> rw [apply, w] at result <;> cases result
    exact .of_int _

/-- A binary operator gives an integer. -/
theorem BinaryOp.tag_of_apply {op : BinaryOp} {left right v : Value}
    (result : op.apply left right = .ok v) : v.tag = .int := by
  cases h : op.integers left right with
  | error f =>
    cases op with
    | and | or | equal | notEqual =>
      cases result
      rfl
    | _ =>
      rw [apply, h] at result
      cases result
  | ok words =>
    cases op with
    | and | or | equal | notEqual =>
      cases result
      rfl
    | divide | modulo =>
      rw [apply, h] at result
      dsimp only [bind, Except.bind] at result
      split at result
      · cases result
      · cases result
        rfl
    | _ =>
      rw [apply, h] at result
      cases result
      rfl

theorem BinaryOp.plain_of_apply {op : BinaryOp} {left right v : Value}
    (result : op.apply left right = .ok v) : v.Plain := by
  intro isNil
  rw [tag_of_apply result] at isNil
  cases isNil

/-- All arguments are plain. -/
def Send.Plain (s : Send) : Prop := ∀ a ∈ s.arguments, a.value.Plain

instance (s : Send) : Decidable s.Plain := inferInstanceAs (Decidable (∀ _ ∈ _, _))

/-! ## Frames -/

/-- All locals are plain. -/
def Frame.Plain (f : Frame) : Prop := ∀ slot ∈ f.slots, slot.value.Plain

namespace Frame.Plain

variable {f f' : Frame} {index : UInt32} {v : Value}

theorem get (h : f.Plain) (found : f.get index = .ok v) : v.Plain := by
  unfold Frame.get at found
  split at found
  · cases found
    exact h _ (Array.mem_of_getElem? ‹_›)
  · cases found

theorem set (h : f.Plain) (hv : v.Plain) (written : f.set index v = .ok f') : f'.Plain := by
  unfold Frame.set at written
  split at written
  · rename_i lt
    cases written
    intro slot mem
    have mem : slot ∈ f.slots.set index.toNat ⟨v, true⟩ lt := mem
    rcases Array.mem_or_eq_of_mem_set mem with old | rfl
    · exact h slot old
    · exact hv
  · cases written

/-- A handler's frame has the arguments, the defaults of its parameters and nil. -/
theorem bind {handler : Handler} {arguments : List Argument}
    (defaults : ∀ p ∈ handler.parameters, p.default.Plain)
    (passed : ∀ a ∈ arguments, a.value.Plain) (track : Bool) :
    (handler.bind track arguments).Plain := by
  intro slot mem
  rw [Handler.bind, List.mem_toArray, List.mem_append] at mem
  rcases mem with mem | mem
  · obtain ⟨p, declared, rfl⟩ := List.mem_map.mp mem
    show (p.valueIn arguments).Plain
    unfold Parameter.valueIn
    split
    · exact passed _ (List.mem_of_find?_eq_some ‹_›)
    · exact defaults p declared
  · rw [List.eq_of_mem_replicate mem]
    exact .nil

end Frame.Plain

/-! ## Worlds -/

/-- All property values are plain. -/
def Object.Plain (o : Object) : Prop := ∀ p ∈ o.properties, p.value.Plain

instance (o : Object) : Decidable o.Plain := inferInstanceAs (Decidable (∀ _ ∈ _, _))

namespace Object

variable {o o' : Object} {index : UInt32} {v : Value}

theorem Plain.property (h : o.Plain) (found : o.property index = .ok v) : v.Plain := by
  unfold Object.property at found
  split at found
  · cases found
    exact h _ (Array.mem_of_getElem? ‹_›)
  · cases found

theorem Plain.setProperty (h : o.Plain) (hv : v.Plain) (written : o.setProperty index v = .ok o') :
    o'.Plain := by
  unfold Object.setProperty at written
  split at written
  · rename_i lt
    cases written
    intro p mem
    have mem : p ∈ o.properties.set index.toNat { o.properties[index.toNat] with value := v } lt :=
      mem
    rcases Array.mem_or_eq_of_mem_set mem with old | rfl
    · exact h p old
    · exact hv
  · cases written

/-- The class of an object is alive. -/
theorem mem_of_lookUp {classes : Directory} {r : Record}
    (found : (o.lookUp classes).1 = some r) : r ∈ classes.living := by
  unfold lookUp at found
  split at found
  · rename_i cached
    cases found
    unfold cachedRecord? at cached
    split at cached
    · exact List.mem_of_find?_eq_some (Option.filter_eq_some_iff.mp cached).1
    · cases cached
  · split at found
    · rename_i held
      cases found
      exact List.mem_append_left _ (List.mem_of_find?_eq_some held)
    · cases found

end Object

/-- All values in a world that running code can reach are plain. -/
structure World.Plain (w : World) : Prop where
  objects : ∀ o ∈ w.objects.slots, o.Plain
  vars : ∀ r ∈ w.classes.living, ∀ v ∈ r.cls.vars, v.Plain
  posts : ∀ s ∈ w.posts.waiting, s.Plain

instance (w : World) : Decidable w.Plain :=
  decidable_of_iff
    ((∀ o ∈ w.objects.slots, o.Plain) ∧ (∀ r ∈ w.classes.living, ∀ v ∈ r.cls.vars, v.Plain) ∧
      ∀ s ∈ w.posts.waiting, s.Plain)
    ⟨fun ⟨objects, vars, posts⟩ => ⟨objects, vars, posts⟩, fun h => ⟨h.objects, h.vars, h.posts⟩⟩

/-- If the operand is a constant, it is plain. -/
def Operand.Plain (o : Operand) : Prop := o.kind = .constant → (Value.ofPacked o.data).Plain

instance (o : Operand) : Decidable o.Plain := inferInstanceAs (Decidable (_ → _))

namespace World.Plain

variable {w w' : World} {receiver : ObjectId} {frame : Frame} {data : UInt32} {o : Object}

theorem of_eq (h : w.Plain) (objects : w'.objects = w.objects) (classes : w'.classes = w.classes)
    (posts : w'.posts = w.posts) : w'.Plain :=
  ⟨objects ▸ h.objects, classes ▸ h.vars, posts ▸ h.posts⟩

theorem get? (h : w.Plain) (found : w.objects.get? receiver = some o) : o.Plain :=
  h.objects o (Array.mem_of_getElem? (Option.filter_eq_some_iff.mp found).1)

theorem putObject (h : w.Plain) (ho : o.Plain) (id : ObjectId) : (w.putObject id o).Plain := by
  refine ⟨fun o' mem => ?_, h.vars, h.posts⟩
  rcases Array.mem_or_eq_of_mem_setIfInBounds mem with old | rfl
  · exact h.objects o' old
  · exact ho

theorem classVar (h : w.Plain) (o : Object) {v : Value}
    (found : (o.classVar w.classes data).1 = .ok v) : v.Plain := by
  rw [o.classVar_eq] at found
  dsimp only at found
  split at found
  · rename_i r looked
    unfold Class.var at found
    split at found
    · cases found
      exact h.vars r (Object.mem_of_lookUp looked) _ (Array.mem_of_getElem? ‹_›)
    · cases found
  · cases found

variable (receiver)

/-- **Reading gives plain values**, unless it is a constant that is read. -/
theorem read (h : w.Plain) (hf : frame.Plain) {kind : OperandKind}
    (constant : (Operand.mk kind data).Plain) :
    (w.read receiver frame kind data).2.Plain ∧
      ∀ v, (w.read receiver frame kind data).1 = .ok v → v.Plain := by
  cases kind with
  | localVar => exact ⟨h, fun v found => hf.get found⟩
  | constant => exact ⟨h, fun v found => by cases found; exact constant rfl⟩
  | property =>
    unfold World.read
    dsimp only
    cases found : w.objects.get? receiver with
    | none => exact ⟨h, fun v fails => by cases fails⟩
    | some o => exact ⟨h, fun v read => (h.get? found).property read⟩
  | classVar =>
    unfold World.read
    dsimp only
    cases found : w.objects.get? receiver with
    | none => exact ⟨h, fun v fails => by cases fails⟩
    | some o =>
      refine ⟨h.putObject ?_ receiver, fun v read => h.classVar o read⟩
      obtain ⟨cache, same⟩ := o.lookUp_snd w.classes
      have plain : o.Plain := h.get? found
      rw [o.classVar_eq, same]
      exact plain

/-- **Writing a plain value** into a local or a property keeps all values plain. -/
theorem write (data : UInt32) (h : w.Plain) (hf : frame.Plain) {v : Value} (hv : v.Plain)
    (place : Place) :
    (w.write receiver frame place.kind data v).2.Plain ∧
      ∀ frame', (w.write receiver frame place.kind data v).1 = .ok frame' → frame'.Plain := by
  cases place with
  | localVar => exact ⟨h, fun frame' written => hf.set hv written⟩
  | property =>
    unfold World.write
    dsimp only [Place.kind]
    cases found : w.objects.get? receiver with
    | none => exact ⟨h, fun frame' fails => by cases fails⟩
    | some o =>
      dsimp only
      cases written : o.setProperty data v with
      | error f => exact ⟨h, fun frame' fails => by cases fails⟩
      | ok o' =>
        exact ⟨h.putObject ((h.get? found).setProperty hv written) receiver, fun frame' same => by
          cases same; exact hf⟩

end World.Plain

/-! ## Native functions -/

/-- All operands of the call and all locals of the caller are plain. -/
structure Call.Plain (c : Call) : Prop where
  frame : c.frame.Plain
  positional : ∀ v ∈ c.positional, v.Plain
  named : ∀ a ∈ c.named, a.value.Plain

/-- A value in the reply is plain, and so are the arguments of a send. -/
def Reply.Plain : Reply → Prop
  | .value v => v.Plain
  | .fault _ => True
  | .send s => s.Plain

/-- The function makes plain values of plain values. -/
def Native.KeepsPlain (n : Native) : Prop :=
  ∀ c w, c.Plain → w.Plain → (n.run c w).1.Plain ∧ (n.run c w).2.Plain

/-- All functions of the table make plain values of plain values. -/
def NativeTable.KeepsPlain (t : NativeTable) : Prop :=
  ∀ index n, t.slot index = some n → n.KeepsPlain

theorem Call.Plain.send {c : Call} (h : c.Plain) {s : Send} (described : c.send = .ok s) :
    s.Plain := by
  unfold Call.send at described
  cases receiver : c.object 0 with
  | error f =>
    rw [receiver] at described
    cases described
  | ok o =>
    rw [receiver] at described
    cases message : c.message 1 with
    | error f =>
      rw [message] at described
      cases described
    | ok m =>
      rw [message] at described
      cases described
      exact h.named

end MessageMachine
