import MessageMachine.Proofs.Statement.Invocation

/-!
# Executions in lockstep

Two executions of the same code may differ in ways that the code cannot see: in which locals count
as written, in when the handler began, in what was remarked, and in whatever a `World.Congruence`
leaves open about their worlds.  This module shows that the code indeed does not see it.  A
statement that is executed on both sides gives the same result on both, and leaves moments behind
that again differ in such ways only (`Action.Blind.statement`).

`Lockstep R a a'` is what is said of the parts of a statement: from states related by `R` the two
computations give the same result, and come to states related by `R`.  It passes from the parts of a
computation to the whole, as `Within` does, with which it has its shape in common.
-/

namespace MessageMachine

/-! ## Computations in lockstep -/

section Computations

variable {σ α β : Type} {R : σ → σ → Prop}

/-- From related states the two computations give the same result, and come to related states. -/
def Lockstep (R : σ → σ → Prop) (a a' : ExceptT Fault (StateM σ) α) : Prop :=
  ∀ s s', R s s' → (a s).1 = (a' s').1 ∧ R (a s).2 (a' s').2

namespace Lockstep

theorem pure (a : α) :
    Lockstep R (Pure.pure a : ExceptT Fault (StateM σ) α) (Pure.pure a) :=
  fun _ _ h => ⟨rfl, h⟩

theorem throw (f : Fault) :
    Lockstep R (MonadExcept.throw f : ExceptT Fault (StateM σ) α) (MonadExcept.throw f) :=
  fun _ _ h => ⟨rfl, h⟩

theorem lift (x : Except Fault α) :
    Lockstep R (liftM x : ExceptT Fault (StateM σ) α) (liftM x) := by
  intro s s' h
  rw [liftM_run, liftM_run]
  exact ⟨rfl, h⟩

theorem modify {f f' : σ → σ} (h : ∀ s s', R s s' → R (f s) (f' s')) :
    Lockstep R (modify f : ExceptT Fault (StateM σ) PUnit) (modify f') :=
  fun s s' related => ⟨rfl, h s s' related⟩

theorem bind {a a' : ExceptT Fault (StateM σ) α} {k k' : α → ExceptT Fault (StateM σ) β}
    (ha : Lockstep R a a') (hk : ∀ x, Lockstep R (k x) (k' x)) :
    Lockstep R (a >>= k) (a' >>= k') := by
  intro s s' h
  obtain ⟨same, related⟩ := ha s s' h
  generalize run : a s = outcome at same related
  generalize run' : a' s' = outcome' at same related
  obtain ⟨result, t⟩ := outcome
  obtain ⟨result', t'⟩ := outcome'
  cases same
  cases result with
  | ok x =>
    rw [bind_of_ok run, bind_of_ok run']
    exact hk x t t' related
  | error f =>
    rw [bind_of_error run, bind_of_error run']
    exact ⟨rfl, related⟩

theorem collect {a a' : ExceptT Fault (StateM σ) α} (ha : Lockstep R a a') :
    ∀ n, Lockstep R (MessageMachine.collect a n) (MessageMachine.collect a' n)
  | 0 => pure _
  | n + 1 => ha.bind fun _ => (collect ha n).bind fun _ => pure _

end Lockstep

/-- The same fault, or results that are related by `r`. -/
inductive Outcomes (r : α → β → Prop) : Except Fault α → Except Fault β → Prop
  | ok {a : α} {b : β} (h : r a b) : Outcomes r (.ok a) (.ok b)
  | error (f : Fault) : Outcomes r (.error f) (.error f)

end Computations

/-! ## What code cannot see -/

/-- The same locals.  Which of them count as written is left open. -/
def Frame.Alike (f f' : Frame) : Prop := f.values = f'.values

namespace Frame

theorem length_values (f : Frame) : f.values.length = f.size := by
  rw [values, List.length_map, Array.length_toList, size]

/-- A local is fetched by its value. -/
theorem get_eq (f : Frame) (index : UInt32) :
    f.get index =
      match f.values[index.toNat]? with
      | some v => .ok v
      | none => .error (.localOutOfRange index f.values.length) := by
  rw [length_values, values, List.getElem?_map, Array.getElem?_toList, get]
  cases f.slots[index.toNat]? with
  | some slot => rfl
  | none => rfl

theorem Alike.get {f f' : Frame} (h : f.Alike f') (index : UInt32) :
    f.get index = f'.get index := by
  rw [get_eq, get_eq, h]

theorem Alike.set {f f' : Frame} (h : f.Alike f') (index : UInt32) (value : Value) :
    Outcomes Alike (f.set index value) (f'.set index value) := by
  have size : f.slots.size = f'.slots.size := by
    have lengths := congrArg List.length h
    rw [length_values, length_values] at lengths
    exact lengths
  unfold Frame.set
  by_cases inside : index.toNat < f.slots.size
  · rw [dif_pos inside, dif_pos (size ▸ inside)]
    refine .ok ?_
    simp only [Alike, values, Array.toList_set, List.map_set]
    exact congrArg (fun values : List Value => values.set index.toNat value) h
  · rw [dif_neg inside, dif_neg (size ▸ inside)]
    have same : f.size = f'.size := size
    rw [same]
    exact .error _

end Frame

/-- The handling without the time at which it began. -/
def Handling.untimed (h : Handling) : Handling := { h with started := 0 }

/-- The same code at the same place, with the same locals. -/
structure Execution.Alike (e e' : Execution) : Prop where
  receiver : e.receiver = e'.receiver
  codeStart : e.codeStart = e'.codeStart
  cursor : e.cursor = e'.cursor
  frame : e.frame.Alike e'.frame
  role : e.role.map Handling.untimed = e'.role.map Handling.untimed

namespace Execution.Alike

/-- Diagnostics show the two executions as the same handler. -/
theorem activation? {e e' : Execution} (h : e.Alike e') : e.activation? = e'.activation? := by
  have shown (x : Execution) :
      x.activation? = (x.role.map Handling.untimed).map Handling.activation := by
    rw [Option.map_map]
    rfl
  rw [shown, shown, h.role]

theorem moveTo {e e' : Execution} (h : e.Alike e') (c : Cursor) :
    Execution.Alike { e with cursor := c } { e' with cursor := c } :=
  ⟨h.receiver, h.codeStart, rfl, h.frame, h.role⟩

end Execution.Alike

/-- Worlds related by `W` are alike for a run: what it reads of them is the same, and what it does
to both leaves them related. -/
structure World.Congruence (W : World → World → Prop) : Prop where
  read {w w' : World} (h : W w w') {f f' : Frame} (frames : f.Alike f') (receiver : ObjectId)
    (kind : OperandKind) (data : UInt32) :
    (w.read receiver f kind data).1 = (w'.read receiver f' kind data).1 ∧
      W (w.read receiver f kind data).2 (w'.read receiver f' kind data).2
  write {w w' : World} (h : W w w') {f f' : Frame} (frames : f.Alike f') (receiver : ObjectId)
    (place : Place) (index : UInt32) (value : Value) :
    Outcomes Frame.Alike (w.write receiver f place.kind index value).1
        (w'.write receiver f' place.kind index value).1 ∧
      W (w.write receiver f place.kind index value).2
        (w'.write receiver f' place.kind index value).2
  posts {w w' : World} (h : W w w') : w.posts = w'.posts
  post {w w' : World} (h : W w w') (posts : PostQueue) : W { w with posts } { w' with posts }
  classes {w w' : World} (h : W w w') : w.classes = w'.classes
  classOf {w w' : World} (h : W w w') (id : ObjectId) :
    (w.objects.get? id).map Object.classId = (w'.objects.get? id).map Object.classId
  clock {w w' : World} (h : W w w') (c c' : Clock) : W { w with clock := c } { w' with clock := c' }
  /-- Something is recorded on both sides. -/
  log {w w' : World} (h : W w w') (x : Entry) : W (w.log x) (w'.log x)
  /-- Something is remarked on the first side only. -/
  remark {w w' : World} (h : W w w') {x : Entry} (remark : x.isRemark) : W (w.log x) w'
  /-- Something is remarked on the second side only. -/
  remark' {w w' : World} (h : W w w') {x : Entry} (remark : x.isRemark) : W w (w'.log x)

/-- Worlds with the same objects and classes give the same value of an operand, and come to the same
objects. -/
theorem World.read_of_same {w w' : World} (sameObjects : w.objects = w'.objects)
    (sameClasses : w.classes = w'.classes) {f f' : Frame} (frames : f.Alike f')
    (receiver : ObjectId) (kind : OperandKind) (data : UInt32) :
    (w.read receiver f kind data).1 = (w'.read receiver f' kind data).1 ∧
      ∃ objects, (w.read receiver f kind data).2 = { w with objects } ∧
        (w'.read receiver f' kind data).2 = { w' with objects } := by
  obtain ⟨objects, classes, posts, clock, journal⟩ := w
  obtain ⟨_, _, posts', clock', journal'⟩ := w'
  cases sameObjects
  cases sameClasses
  cases kind with
  | localVar => exact ⟨frames.get data, _, rfl, rfl⟩
  | constant => exact ⟨rfl, _, rfl, rfl⟩
  | property =>
    dsimp only [World.read]
    cases objects.get? receiver with
    | none => exact ⟨rfl, _, rfl, rfl⟩
    | some o => exact ⟨rfl, _, rfl, rfl⟩
  | classVar =>
    dsimp only [World.read]
    cases objects.get? receiver with
    | none => exact ⟨rfl, _, rfl, rfl⟩
    | some o => exact ⟨rfl, _, rfl, rfl⟩

/-- A destination is written alike in worlds with the same objects, and they come to
the same objects. -/
theorem World.write_of_same {w w' : World} (sameObjects : w.objects = w'.objects) {f f' : Frame}
    (frames : f.Alike f') (receiver : ObjectId) (place : Place) (index : UInt32) (value : Value) :
    Outcomes Frame.Alike (w.write receiver f place.kind index value).1
        (w'.write receiver f' place.kind index value).1 ∧
      ∃ objects, (w.write receiver f place.kind index value).2 = { w with objects } ∧
        (w'.write receiver f' place.kind index value).2 = { w' with objects } := by
  obtain ⟨objects, classes, posts, clock, journal⟩ := w
  obtain ⟨_, classes', posts', clock', journal'⟩ := w'
  cases sameObjects
  cases place with
  | localVar => exact ⟨frames.set index value, _, rfl, rfl⟩
  | property =>
    dsimp only [World.write, Place.kind]
    cases objects.get? receiver with
    | none => exact ⟨.error _, _, rfl, rfl⟩
    | some o =>
      dsimp only
      cases o.setProperty index value with
      | ok o' => exact ⟨.ok frames, _, rfl, rfl⟩
      | error g => exact ⟨.error g, _, rfl, rfl⟩

/-- Something was remarked, or nothing was. -/
inductive World.Remarks (w : World) : World → Prop
  | none : w.Remarks w
  | one {x : Entry} (remark : x.isRemark) : w.Remarks (w.log x)

/-- What is remarked on the two sides need not be the same. -/
theorem World.Congruence.remarks {W : World → World → Prop} (hW : World.Congruence W)
    {w w' v v' : World} (h : W w w') (left : w.Remarks v) (right : w'.Remarks v') : W v v' := by
  have first : W v w' := by
    cases left with
    | none => exact h
    | one remark => exact hW.remark h remark
  cases right with
  | none => exact first
  | one remark => exact hW.remark' first remark

theorem Action.remarks_fetched (m : Moment) (kind : OperandKind) (data : UInt32) :
    (m.world.read m.execution.receiver m.execution.frame kind data).2.Remarks
      (fetched m kind data) := by
  unfold fetched
  generalize m.world.read m.execution.receiver m.execution.frame kind data = outcome
  match outcome with
  | (.error f, w) => exact .none
  | (.ok v, w) =>
    dsimp only
    split
    · exact .one rfl
    · exact .none

theorem Action.remarks_opened (scope : Scope) (m : Moment) :
    m.world.Remarks (opened scope m).world := by
  unfold opened
  split
  · exact .none
  · split
    · exact .one rfl
    · exact .none

/-- Executions that are alike, in worlds that are related by `W`.  The first has called `ahead`
native functions more. -/
structure Moment.Alike (W : World → World → Prop) (ahead : Nat) (m m' : Moment) : Prop where
  world : W m.world m'.world
  nativeCalls : m.nativeCalls = m'.nativeCalls + ahead
  execution : m.execution.Alike m'.execution

theorem Moment.Alike.moveTo {W : World → World → Prop} {ahead : Nat} {m m' : Moment}
    (h : m.Alike W ahead m') (c : Cursor) : (m.moveTo c).Alike W ahead (m'.moveTo c) :=
  ⟨h.world, h.nativeCalls, h.execution.moveTo c⟩

/-! ## Native functions -/

/-- What a standard native function is shown of a call besides the operands is seen in its remarks
at most: it replies alike in worlds that are alike. -/
theorem World.Congruence.native {W : World → World → Prop} (hW : World.Congruence W) {n : Native}
    (hn : n.IsStandard) (c c' : Call) (name : c.name = c'.name)
    (positional : c.positional = c'.positional) (named : c.named = c'.named) {w w' : World}
    (h : W w w') : (n.run c w).1 = (n.run c' w').1 ∧ W (n.run c w).2 (n.run c' w').2 := by
  have send := Call.send_congr name positional named
  rcases hn with hn | hn | hn
  · rw [hn]
    simp only [Native.sendMessage, send]
    cases c'.send with
    | ok s => exact ⟨rfl, h⟩
    | error f => exact ⟨rfl, h⟩
  · rw [hn]
    simp only [Native.postMessage, send, hW.posts h]
    cases c'.send with
    | error f => exact ⟨rfl, h⟩
    | ok s =>
      dsimp only
      cases w'.posts.push? s with
      | some posts => exact ⟨rfl, hW.post h posts⟩
      | none => exact ⟨rfl, hW.remarks h (.one rfl) (.one rfl)⟩
  · rw [hn]
    exact ⟨rfl, hW.remarks h (.one rfl) (.one rfl)⟩

/-! ## Statements -/

namespace Action

/-- What has to be known of `R` to compare two executions of a statement: they read the same
code at the same place, their scopes have the same natives, and each part that a statement is
made of keeps `R`. -/
structure Correspondence (R : Moment → Moment → Prop) (scope scope' : Scope) : Prop where
  natives : scope'.environment.natives = scope.environment.natives
  cursor {m m' : Moment} (h : R m m') : m.execution.cursor = m'.execution.cursor
  codeStart {m m' : Moment} (h : R m m') : m.execution.codeStart = m'.execution.codeStart
  moveTo {m m' : Moment} (h : R m m') (c : Cursor) : R (m.moveTo c) (m'.moveTo c)
  opened {m m' : Moment} (h : R m m') : R (opened scope m) (opened scope' m')
  setLine (line : UInt32) : Lockstep R (setLine line) (setLine line)
  fetch (kind : OperandKind) (data : UInt32) : Lockstep R (fetch kind data) (fetch kind data)
  assign (destination : Destination) (value : Value) :
    Lockstep R (assign destination value) (assign destination value)
  invoke (index : UInt8) {native : Native}
    (slot : scope.environment.natives.slot index = some native) (positional : List Value)
    (named : List Argument) :
    Lockstep R (invoke scope index native positional named)
      (invoke scope' index native positional named)

theorem lockstep_assignIf {R : Moment → Moment → Prop}
    (assign : ∀ destination value,
      Lockstep R (assign destination value) (assign destination value))
    (destination : Option Destination) (value : Value) :
    Lockstep R (assignIf destination value) (assignIf destination value) := by
  cases destination with
  | none => exact .pure _
  | some d => exact assign d value

namespace Correspondence

variable {R : Moment → Moment → Prop} {scope scope' : Scope} (hR : Correspondence R scope scope')

include hR

theorem reading {α : Type} (r : Reading α) : Lockstep R (Action.reading r) (Action.reading r) := by
  intro m m' h
  rw [reading_run, reading_run, hR.cursor h]
  exact ⟨rfl, hR.moveTo h _⟩

theorem jump (target : UInt32) : Lockstep R (Action.jump target) (Action.jump target) := by
  intro m m' h
  have run (m : Moment) : Action.jump target m =
      (if target.toNat < m.execution.codeStart then
        (throw (.branchOutOfRange target.toNat m.execution.cursor.code.size) : Action Unit)
      else Action.reading (Cursor.seek target.toNat)) m := rfl
  rw [run, run, hR.codeStart h, hR.cursor h]
  split
  · exact ⟨rfl, h⟩
  · exact hR.reading _ m m' h

theorem unary (opcode : Opcode) : Lockstep R (Action.unary opcode) (Action.unary opcode) :=
  (hR.reading _).bind fun _ => (hR.reading _).bind fun _ => (hR.reading _).bind fun _ =>
    (hR.fetch _ _).bind fun _ => (Lockstep.lift _).bind fun _ => hR.assign _ _

theorem binary (opcode : Opcode) : Lockstep R (Action.binary opcode) (Action.binary opcode) :=
  (hR.reading _).bind fun _ => (hR.reading _).bind fun _ => (hR.reading _).bind fun _ =>
    (hR.reading _).bind fun _ => (hR.fetch _ _).bind fun _ => (hR.fetch _ _).bind fun _ =>
      (Lockstep.lift _).bind fun _ => hR.assign _ _

theorem isTaken (opcode : Opcode) (mode : GotoMode) :
    Lockstep R (Action.isTaken opcode mode) (Action.isTaken opcode mode) := by
  cases mode with
  | always => exact .pure _
  | ifTrue => exact (hR.reading _).bind fun _ => (hR.fetch _ _).bind fun _ => .pure _
  | ifFalse => exact (hR.reading _).bind fun _ => (hR.fetch _ _).bind fun _ => .pure _

theorem goto (opcode : Opcode) : Lockstep R (Action.goto opcode) (Action.goto opcode) :=
  (Lockstep.lift _).bind fun mode => (hR.reading _).bind fun target =>
    (hR.isTaken opcode mode).bind fun taken => by
      cases taken with
      | true => exact hR.jump target
      | false => exact .pure _

theorem operand : Lockstep R Action.operand Action.operand :=
  (hR.reading _).bind fun _ => hR.fetch _ _

theorem argument : Lockstep R Action.argument Action.argument :=
  (hR.reading _).bind fun _ => hR.operand.bind fun _ => .pure _

theorem call (opcode : Opcode) :
    Lockstep R (Action.call scope opcode) (Action.call scope' opcode) := by
  unfold Action.call
  rw [hR.natives]
  refine (hR.reading _).bind fun index => (Lockstep.lift _).bind fun place =>
    (hR.reading _).bind fun destination => (hR.reading _).bind fun n =>
    (hR.operand.collect n).bind fun positional => (hR.reading _).bind fun n' =>
    (hR.argument.collect n').bind fun named => ?_
  cases slot : scope.environment.natives.slot index with
  | none => exact .throw _
  | some native =>
    refine (hR.invoke index slot _ _).bind fun reply => ?_
    cases reply with
    | value v => exact (lockstep_assignIf hR.assign destination v).bind fun _ => .pure _
    | fault f => exact .throw f
    | send s => exact .pure _

theorem rest (opcode : Opcode) (command : Command) :
    Lockstep R (Action.rest scope opcode command) (Action.rest scope' opcode command) := by
  cases command with
  | assignUnary => exact (hR.unary opcode).bind fun _ => .pure _
  | assignBinary => exact (hR.binary opcode).bind fun _ => .pure _
  | goto => exact (hR.goto opcode).bind fun _ => .pure _
  | call => exact hR.call opcode
  | leave =>
    show Lockstep R (if opcode.handsOver then _ else _) (if opcode.handsOver then _ else _)
    split
    · exact .pure _
    · exact (hR.reading _).bind fun _ => (hR.fetch _ _).bind fun _ => .pure _
  | line => exact (hR.reading _).bind fun _ => (hR.setLine _).bind fun _ => .pure _

/-- **A statement keeps what its parts keep.** -/
theorem statement : Lockstep R (Action.statement scope) (Action.statement scope') := by
  intro m m' h
  have same := hR.cursor h
  cases found : m.execution.cursor.opcode? with
  | none =>
    obtain ⟨f, c, fails, run⟩ := statement_of_missing scope found
    rw [same] at found fails
    obtain ⟨f', c', fails', run'⟩ := statement_of_missing scope' found
    rw [fails] at fails'
    cases fails'
    rw [run, run']
    exact ⟨rfl, hR.moveTo h c⟩
  | some p =>
    have run := (statement_of_found scope found).2
    rw [same] at found run
    have run' := (statement_of_found scope' found).2
    rw [run, run']
    exact hR.rest p.1 p.2 _ _ (hR.moveTo (hR.opened h) _)

end Correspondence

/-- The two actions do not see what is left open about moments that are alike. -/
abbrev Blind {α : Type} (W : World → World → Prop) (ahead : Nat) (a a' : Action α) : Prop :=
  Lockstep (Moment.Alike W ahead) a a'

namespace Blind

variable {W : World → World → Prop} {ahead : Nat}

theorem setLine (line : UInt32) : Blind W ahead (Action.setLine line) (Action.setLine line) := by
  refine Lockstep.modify fun m m' h => ⟨h.world, h.nativeCalls, ?_⟩
  have role := h.execution.role
  refine ⟨h.execution.receiver, h.execution.codeStart, h.execution.cursor, h.execution.frame, ?_⟩
  have lined (role : Option Handling) :
      (role.map fun h => { h with line }).map Handling.untimed =
        (role.map Handling.untimed).map fun h => { h with line } := by
    rw [Option.map_map, Option.map_map]
    rfl
  rw [lined, lined, role]

section

variable (hW : World.Congruence W)

include hW

/-- A local that was never written may count as written on one side only.  Then its fetch is
remarked on the other side only. -/
theorem fetch (kind : OperandKind) (data : UInt32) :
    Blind W ahead (Action.fetch kind data) (Action.fetch kind data) := by
  intro m m' h
  obtain ⟨same, related⟩ := hW.read h.world h.execution.frame m.execution.receiver kind data
  rw [fetch_run, fetch_run, same, h.execution.receiver]
  rw [h.execution.receiver] at related
  refine ⟨rfl, ?_, h.nativeCalls, h.execution⟩
  refine hW.remarks ?_ (remarks_fetched m kind data) (remarks_fetched m' kind data)
  rw [h.execution.receiver]
  exact related

theorem assign (destination : Destination) (value : Value) :
    Blind W ahead (Action.assign destination value) (Action.assign destination value) := by
  intro m m' h
  obtain ⟨outcomes, related⟩ := hW.write h.world h.execution.frame m.execution.receiver
    destination.place destination.index value
  rw [assign_run, assign_run, ← h.execution.receiver]
  generalize m.world.write m.execution.receiver m.execution.frame destination.place.kind
    destination.index value = outcome at outcomes related
  generalize m'.world.write m.execution.receiver m'.execution.frame destination.place.kind
    destination.index value = outcome' at outcomes related
  obtain ⟨result, w⟩ := outcome
  obtain ⟨result', w'⟩ := outcome'
  cases outcomes with
  | ok frames =>
    exact ⟨rfl, related, h.nativeCalls, h.execution.receiver, h.execution.codeStart,
      h.execution.cursor, frames, h.execution.role⟩
  | error f => exact ⟨rfl, related, h.nativeCalls, h.execution⟩

theorem assignIf (destination : Option Destination) (value : Value) :
    Blind W ahead (Action.assignIf destination value) (Action.assignIf destination value) :=
  lockstep_assignIf (assign hW) destination value

theorem invoke (scope scope' : Scope) (index : UInt8) {native : Native} (hn : native.IsStandard)
    (positional : List Value) (named : List Argument) :
    Blind W ahead (Action.invoke scope index native positional named)
      (Action.invoke scope' index native positional named) := by
  intro m m' h
  have counted : W (countedCall index native m).world (countedCall index native m').world :=
    hW.log h.world _
  obtain ⟨same, related⟩ := hW.native hn
    (seenCall scope native positional named (countedCall index native m))
    (seenCall scope' native positional named (countedCall index native m')) rfl rfl rfl counted
  rw [invoke_eq, invoke_eq, same]
  refine ⟨rfl, related, ?_, h.execution⟩
  show m.nativeCalls + 1 = m'.nativeCalls + 1 + ahead
  rw [h.nativeCalls, Nat.add_right_comm]

theorem opened (scope scope' : Scope) {m m' : Moment} (h : m.Alike W ahead m') :
    (opened scope m).Alike W ahead (Action.opened scope' m') := by
  have left := Moment.Looked.opened scope m
  have right := Moment.Looked.opened scope' m'
  refine ⟨hW.remarks h.world (remarks_opened scope m) (remarks_opened scope' m'), ?_, ?_⟩
  · rw [left.nativeCalls, right.nativeCalls]
    exact h.nativeCalls
  · rw [left.execution, right.execution]
    exact h.execution

/-- **A statement does not see what is left open about moments that are alike**, whatever is shown
to its native function of the scope, and whether it is recorded or not. -/
theorem statement {scope scope' : Scope} (hn : scope.environment.natives.IsStandard)
    (natives : scope'.environment.natives = scope.environment.natives) :
    Blind W ahead (Action.statement scope) (Action.statement scope') :=
  Correspondence.statement {
    natives
    cursor := fun h => h.execution.cursor
    codeStart := fun h => h.execution.codeStart
    moveTo := fun h c => h.moveTo c
    opened := opened hW scope scope'
    setLine
    fetch := fetch hW
    assign := assign hW
    invoke := fun index native slot => invoke hW scope scope' index (hn index native slot) }

end

end Blind

end Action

end MessageMachine
