import MessageMachine.Proofs.Fallible
import MessageMachine.Proofs.Footprint
import MessageMachine.Proofs.Statement.Ordinary

/-!
# What a statement can do

`Moment.Follows m m'` says all that a statement can change when its natives are the standard ones:
property values of the receiver, the line and the frame of its own execution, counters of native
calls, new posts at the end of the queue, and remarks in the journal.  The directory, the clock and
the other counters are the same after it.

A *tame* action is one that leads from a moment to a moment that follows it, and that fails with
ordinary faults only, never with one that aborts a whole chain of sends.  Every action that a
statement is made of is tame, so the statement is (`Action.Tame.statement`), and so is the write of
the answer to a send (`Action.Tame.assignIf`).

Nothing is said here about *which* operands a statement reads or in which order.
-/

namespace MessageMachine

/-! ## Standard natives -/

/-- A native function that acts as one of the standard ones, under whatever name. -/
def Native.IsStandard (n : Native) : Prop :=
  n.run = Native.sendMessage.run ∨ n.run = Native.postMessage.run ∨ n.run = Native.debug.run

/-- A table in which every filled slot holds a standard function.  The same function may stand in
several slots, or in none. -/
def NativeTable.IsStandard (t : NativeTable) : Prop :=
  ∀ index n, t.slot index = some n → n.IsStandard

theorem NativeTable.slot_setSlot (t : NativeTable) (index i : UInt8) (n : Option Native) :
    (t.setSlot index n).slot i = if index = i then n else t.slot i := by
  have e : (t.setSlot index n).slot i = if index.toNat = i.toNat then n else t.slot i :=
    Vector.getElem_set index.toNat_lt i.toNat_lt
  rw [e]
  by_cases h : index = i
  · rw [if_pos h, if_pos (congrArg UInt8.toNat h)]
  · rw [if_neg h, if_neg fun hn => h (UInt8.toNat_inj.mp hn)]

theorem NativeTable.slot_empty (i : UInt8) : NativeTable.empty.slot i = none :=
  Vector.getElem_replicate i.toNat_lt

/-- The table of the standard functions is standard. -/
theorem NativeTable.isStandard_standard : NativeTable.standard.IsStandard := by
  intro index n h
  rw [standard, slot_setSlot, slot_setSlot, slot_setSlot, slot_empty] at h
  split at h
  · cases h
    exact Or.inr (Or.inr rfl)
  split at h
  · cases h
    exact Or.inr (Or.inl rfl)
  split at h
  · cases h
    exact Or.inl rfl
  · cases h

/-! ## Remarks -/

/-- Is the entry one that a statement may leave?  Faults, failures of sends and flushes are recorded
elsewhere. -/
def Entry.isRemark : Entry → Bool
  | unwrittenRead .. | postRefused .. | shown .. | instruction .. | nativeCall .. => true
  | fault .. | sendFailed .. | postFailed .. | sendEnded .. | flush | note _ => false

/-- The journal has got remarks at its end at most. -/
def Journal.Remarked (j j' : Journal) : Prop :=
  ∃ remarks : List Entry, j'.toList = j.toList ++ remarks ∧ ∀ x ∈ remarks, x.isRemark

namespace Journal.Remarked

theorem refl (j : Journal) : j.Remarked j :=
  ⟨[], (List.append_nil _).symm, fun _ h => by cases h⟩

theorem trans {j j' j'' : Journal} (h : j.Remarked j') (h' : j'.Remarked j'') :
    j.Remarked j'' := by
  obtain ⟨remarks, e, hr⟩ := h
  obtain ⟨remarks', e', hr'⟩ := h'
  refine ⟨remarks ++ remarks', by rw [e', e, List.append_assoc], fun x hx => ?_⟩
  rcases List.mem_append.mp hx with hx | hx
  · exact hr x hx
  · exact hr' x hx

theorem push {j : Journal} {x : Entry} (h : x.isRemark) : j.Remarked (j.push x) :=
  ⟨[x], Array.toList_push, fun y hy => by rw [List.mem_singleton.mp hy]; exact h⟩

end Journal.Remarked

/-- All that a standard native function can do: it posts or remarks, and fails with faults of
the data only. -/
theorem Native.IsStandard.run_spec {n : Native} (h : n.IsStandard) (c : Call) (w : World)
    (touched : Nat → Prop) :
    w.Rewritten touched (n.run c w).2 ∧ (n.run c w).2.clock = w.clock ∧
      w.journal.Remarked (n.run c w).2.journal ∧
      ∀ f, (n.run c w).1 = .fault f → f.isData = true := by
  rcases h with h | h | h
  · rw [h]
    simp only [sendMessage]
    cases hs : c.send with
    | ok s => exact ⟨.refl _ _, rfl, .refl _, fun f hf => by cases hf⟩
    | error f =>
      exact ⟨.refl _ _, rfl, .refl _, fun g hg => by cases hg; exact DataFaults.send c f hs⟩
  · rw [h]
    simp only [postMessage]
    cases hs : c.send with
    | error f =>
      exact ⟨.refl _ _, rfl, .refl _, fun g hg => by cases hg; exact DataFaults.send c f hs⟩
    | ok s =>
      dsimp only
      cases hp : w.posts.push? s with
      | none => exact ⟨.of_eq rfl rfl rfl, rfl, .push rfl, fun f hf => by cases hf⟩
      | some posts =>
        refine ⟨⟨.refl _ _, rfl, [s], ?_⟩, rfl, .refl _, fun f hf => by cases hf⟩
        unfold PostQueue.push? at hp
        split at hp
        · cases hp
          rfl
        · cases hp
  · rw [h]
    exact ⟨.of_eq rfl rfl rfl, rfl, .push rfl, fun f hf => by cases hf⟩

/-! ## Moments that follow one another -/

/-- The handling without the line that it has reached. -/
def Handling.unlined (h : Handling) : Handling := { h with line := 0 }

/-- The same body of code at work, perhaps at another place, in another frame, or
on another line. -/
structure Execution.Continues (e e' : Execution) : Prop where
  receiver : e'.receiver = e.receiver
  codeStart : e'.codeStart = e.codeStart
  code : e'.cursor.code = e.cursor.code
  size : e'.frame.size = e.frame.size
  role : e'.role.map Handling.unlined = e.role.map Handling.unlined

namespace Execution.Continues

theorem refl (e : Execution) : e.Continues e := ⟨rfl, rfl, rfl, rfl, rfl⟩

theorem trans {e e' e'' : Execution} (h : e.Continues e') (h' : e'.Continues e'') :
    e.Continues e'' :=
  ⟨h'.receiver.trans h.receiver, h'.codeStart.trans h.codeStart, h'.code.trans h.code,
    h'.size.trans h.size, h'.role.trans h.role⟩

/-- A handler stays a handler. -/
theorem isSome_role {e e' : Execution} (h : e.Continues e') : e'.role.isSome = e.role.isSome := by
  rw [← Option.isSome_map (f := Handling.unlined), h.role, Option.isSome_map]

/-- An execution that goes on handles the same send, perhaps on another line. -/
theorem exists_line {e e' : Execution} (h : e.Continues e') {x : Handling}
    (role : e.role = some x) : ∃ line, e'.role = some { x with line } := by
  have same := h.role
  rw [role] at same
  obtain ⟨y, role', unlined⟩ := Option.map_eq_some_iff.mp same
  refine ⟨y.line, role'.trans (congrArg some ?_)⟩
  have lined : y = { y.unlined with line := y.line } := rfl
  rw [lined, unlined]
  rfl

end Execution.Continues

/-- All that a statement can change. -/
structure Moment.Follows (m m' : Moment) : Prop where
  world : m.world.Rewritten (· = m.execution.receiver.slot) m'.world
  clock : m'.world.clock = m.world.clock
  journal : m.world.journal.Remarked m'.world.journal
  statistics : m'.statistics =
    { m.statistics with
      nativeCalls := m'.statistics.nativeCalls
      perNative := m'.statistics.perNative }
  execution : m.execution.Continues m'.execution

namespace Moment.Follows

theorem refl (m : Moment) : m.Follows m :=
  ⟨.refl _ _, rfl, .refl _, rfl, .refl _⟩

theorem trans {m m' m'' : Moment} (h : m.Follows m') (h' : m'.Follows m'') : m.Follows m'' := by
  refine ⟨h.world.trans ?_, h'.clock.trans h.clock, h.journal.trans h'.journal, ?_,
    h.execution.trans h'.execution⟩
  · rw [← h.execution.receiver]
    exact h'.world
  · rw [h'.statistics, h.statistics]

/-- No handler is counted. -/
theorem messages {m m' : Moment} (h : m.Follows m') :
    m'.statistics.messages = m.statistics.messages := by
  have e := congrArg Statistics.messages h.statistics
  exact e

instance : Std.Refl Moment.Follows := ⟨refl⟩

instance : IsTrans Moment Moment.Follows := ⟨fun _ _ _ => trans⟩

/-- A change of the execution alone. -/
theorem of_execution {m : Moment} {e : Execution} (h : m.execution.Continues e) :
    m.Follows { m with execution := e } :=
  ⟨.refl _ _, rfl, .refl _, rfl, h⟩

/-- A change of the world alone. -/
theorem of_world {m : Moment} {w : World}
    (world : m.world.Rewritten (· = m.execution.receiver.slot) w)
    (clock : w.clock = m.world.clock) (journal : m.world.journal.Remarked w.journal) :
    m.Follows { m with world := w } :=
  ⟨world, clock, journal, rfl, .refl _⟩

end Moment.Follows

/-! ## Tame actions -/

/-- A reading that stays in the code it reads, and fails with ordinary faults only. -/
abbrev Reading.Tame {α : Type} (r : Reading α) : Prop :=
  Within (fun c c' : Cursor => c'.code = c.code) Fault.IsOrdinary r

instance : Std.Refl fun c c' : Cursor => c'.code = c.code := ⟨fun _ => rfl⟩

instance : IsTrans Cursor fun c c' => c'.code = c.code := ⟨fun _ _ _ h h' => h'.trans h⟩

theorem Cursor.seek_run (target : Nat) (c : Cursor) :
    Cursor.seek target c =
      if target < c.code.size then (.ok (), { c with offset := target })
      else (.error (.branchOutOfRange (min target (UInt32.size - 1)) c.code.size), c) := by
  change (if target < c.code.size then _ else _ : Reading Unit) c = _
  by_cases h : target < c.code.size
  · rw [if_pos h, if_pos h]
    rfl
  · rw [if_neg h, if_neg h]
    rfl

namespace Reading.Tame

theorem byte : Tame Cursor.byte := by
  intro c
  rw [Cursor.byte_run]
  cases c.code[c.offset]? with
  | some b => exact ⟨rfl, fun _ h => by cases h⟩
  | none => exact ⟨rfl, fun _ h => by cases h; rfl⟩

theorem word : Tame Cursor.word := by
  intro c
  rw [Cursor.word_run]
  split
  · exact ⟨rfl, fun _ h => by cases h⟩
  · exact ⟨rfl, fun _ h => by cases h; rfl⟩

theorem seek (target : Nat) : Tame (Cursor.seek target) := by
  intro c
  rw [Cursor.seek_run]
  split
  · exact ⟨rfl, fun _ h => by cases h⟩
  · exact ⟨rfl, fun _ h => by cases h; rfl⟩

theorem operand (kind : OperandKind) : Tame (Operand.decode kind) :=
  word.bind fun _ => .pure _

theorem taggedOperand : Tame Operand.decodeTagged :=
  byte.bind fun b => (Within.lift (OrdinaryFaults.operandKind b)).bind fun _ => operand _

theorem destinationIf (place : Option Place) : Tame (Destination.decodeIf place) := by
  cases place with
  | none => exact .pure _
  | some p => exact (word.bind fun _ => .pure _).bind fun _ => .pure _

theorem unaryOp : Tame UnaryOp.decode :=
  byte.bind fun b => .lift (OrdinaryFaults.unaryOp b)

theorem binaryOp : Tame BinaryOp.decode :=
  byte.bind fun b => .lift (OrdinaryFaults.binaryOp b)

theorem positionalCount : Tame positionalCount := byte.bind fun _ => by
  split
  · exact .pure _
  · exact .throw rfl

theorem namedCount : Tame namedCount := byte.bind fun _ => by
  split
  · exact .pure _
  · exact .throw rfl

end Reading.Tame

namespace Action

/-- What a reading makes of a moment. -/
theorem reading_run {α : Type} (r : Reading α) (m : Moment) :
    reading r m = ((r m.execution.cursor).1,
      { m with execution := { m.execution with cursor := (r m.execution.cursor).2 } }) := by
  have e : reading r m = (liftM (r m.execution.cursor).1 : Action α)
      { m with execution := { m.execution with cursor := (r m.execution.cursor).2 } } := rfl
  rw [e, liftM_run]

/-- The world after an operand was fetched: as it is after a read, and with a remark when the
operand is a local that was never written. -/
def fetched (m : Moment) (kind : OperandKind) (data : UInt32) : World :=
  match m.world.read m.execution.receiver m.execution.frame kind data with
  | (.ok _, w) =>
    if kind = .localVar ∧ m.execution.frame.isUnwritten data then
      w.log (.unwrittenRead m.execution.activation? data)
    else w
  | (.error _, w) => w

/-- What fetching an operand makes of a moment: it changes the world alone. -/
theorem fetch_run (kind : OperandKind) (data : UInt32) (m : Moment) :
    fetch kind data m =
      ((m.world.read m.execution.receiver m.execution.frame kind data).1,
        { m with world := fetched m kind data }) := by
  have e : fetch kind data m =
      ((liftM (m.world.read m.execution.receiver m.execution.frame kind data).1 : Action Value)
        >>= fun value => do
          if kind = .localVar ∧ m.execution.frame.isUnwritten data then
            log (.unwrittenRead (← position) data)
          return value)
        { m with world := (m.world.read m.execution.receiver m.execution.frame kind data).2 } := rfl
  rw [e, fetched]
  generalize m.world.read m.execution.receiver m.execution.frame kind data = outcome
  match outcome with
  | (.error f, w) => rfl
  | (.ok v, w) =>
    by_cases h : kind = .localVar ∧ m.execution.frame.isUnwritten data
    · simp only [h, and_self, if_true]
      rfl
    · simp only [h, if_false]
      rfl

/-- What writing a destination makes of a moment. -/
theorem assign_run (destination : Destination) (value : Value) (m : Moment) :
    assign destination value m =
      match m.world.write m.execution.receiver m.execution.frame destination.place.kind
        destination.index value with
      | (.ok frame, w) =>
        (.ok (), { m with world := w, execution := { m.execution with frame } })
      | (.error f, w) => (.error f, { m with world := w }) := by
  have e : assign destination value m =
      ((liftM (m.world.write m.execution.receiver m.execution.frame destination.place.kind
          destination.index value).1 : Action Frame) >>= fun frame =>
        modify fun m => { m with execution := { m.execution with frame } })
        { m with world := (m.world.write m.execution.receiver m.execution.frame
          destination.place.kind destination.index value).2 } := rfl
  rw [e]
  generalize m.world.write m.execution.receiver m.execution.frame destination.place.kind
    destination.index value = outcome
  match outcome with
  | (.error f, w) => rfl
  | (.ok frame, w) => rfl

/-- What invoking a native function makes of a moment: the call is counted and recorded, and the
function runs on the world that it is then. -/
theorem invoke_run (scope : Scope) (index : UInt8) (native : Native) (positional : List Value)
    (named : List Argument) (m : Moment) :
    ∃ (c : Call) (m₁ : Moment),
      m₁ = { m with
        statistics := m.statistics.countNative index
        nativeCalls := m.nativeCalls + 1
        world := m.world.log (.nativeCall native.name index) } ∧
      invoke scope index native positional named m =
        (.ok (native.run c m₁.world).1, { m₁ with world := (native.run c m₁.world).2 }) :=
  ⟨_, _, rfl, rfl⟩

/-- An action that leads to a moment that follows, and fails with ordinary faults only. -/
abbrev Tame {α : Type} (a : Action α) : Prop := Within Moment.Follows Fault.IsOrdinary a

namespace Tame

theorem reading {α : Type} {r : Reading α} (h : r.Tame) : Tame (Action.reading r) := by
  intro m
  rw [reading_run]
  exact ⟨.of_execution ⟨rfl, rfl, (h _).1, rfl, rfl⟩, (h _).2⟩

theorem log {x : Entry} (h : x.isRemark) : Tame (Action.log x) :=
  .modify fun _ => .of_world (.of_eq rfl rfl rfl) rfl (.push h)

theorem position : Tame Action.position := Within.get.bind fun _ => .pure _

theorem fetch (kind : OperandKind) (data : UInt32) : Tame (Action.fetch kind data) := by
  intro m
  obtain ⟨objects, e, h⟩ :=
    m.world.rewritten_read m.execution.receiver m.execution.frame kind data
      (· = m.execution.receiver.slot)
  rw [fetch_run]
  refine ⟨?_, OrdinaryFaults.read _ _ _ _ _⟩
  unfold fetched
  generalize m.world.read m.execution.receiver m.execution.frame kind data = outcome at e
  match outcome with
  | (.error f, w) =>
    rw [show w = _ from e]
    exact .of_world (.of_objects h) rfl (.refl _)
  | (.ok v, w) =>
    rw [show w = _ from e]
    dsimp only
    split
    · exact .of_world ((World.Rewritten.of_objects h).trans (.of_eq rfl rfl rfl)) rfl (.push rfl)
    · exact .of_world (.of_objects h) rfl (.refl _)

theorem assign (destination : Destination) (value : Value) :
    Tame (Action.assign destination value) := by
  intro m
  have ordinary := OrdinaryFaults.write m.world m.execution.receiver m.execution.frame
    destination.place destination.index value
  have size := World.size_of_write m.world m.execution.receiver m.execution.frame
    destination.place destination.index value
  obtain ⟨objects, e, h⟩ := m.world.rewritten_write m.execution.receiver m.execution.frame
    destination.place destination.index value
  rw [assign_run]
  generalize m.world.write m.execution.receiver m.execution.frame destination.place.kind
    destination.index value = outcome at e ordinary size
  match outcome with
  | (.error f, w) =>
    rw [show w = _ from e]
    exact ⟨.of_world (.of_objects h) rfl (.refl _), fun g hg => by cases hg; exact ordinary f rfl⟩
  | (.ok frame, w) =>
    rw [show w = _ from e]
    refine ⟨?_, fun g hg => by cases hg⟩
    exact (Moment.Follows.of_world (.of_objects h) rfl (.refl _)).trans
      (.of_execution ⟨rfl, rfl, rfl, size frame rfl, rfl⟩)

theorem assignIf (destination : Option Destination) (value : Value) :
    Tame (Action.assignIf destination value) := by
  cases destination with
  | none => exact .pure _
  | some d => exact assign d value

theorem unary (opcode : Opcode) : Tame (Action.unary opcode) :=
  (reading .unaryOp).bind fun op => (reading .word).bind fun _ => (reading .word).bind fun _ =>
    (fetch _ _).bind fun v => (Within.lift (DataFaults.unaryApply op v).ordinary).bind fun _ =>
      assign _ _

theorem binary (opcode : Opcode) : Tame (Action.binary opcode) :=
  (reading .binaryOp).bind fun op => (reading .word).bind fun _ => (reading .word).bind fun _ =>
    (reading .word).bind fun _ => (fetch _ _).bind fun l => (fetch _ _).bind fun r =>
      (Within.lift (DataFaults.binaryApply op l r).ordinary).bind fun _ => assign _ _

theorem jump (target : UInt32) : Tame (Action.jump target) := Within.get.bind fun m => by
  by_cases h : target.toNat < m.execution.codeStart
  · simp only [h, if_true]
    exact .throw rfl
  · simp only [h, if_false]
    exact reading (.seek _)

theorem isTaken (opcode : Opcode) (mode : GotoMode) : Tame (Action.isTaken opcode mode) := by
  cases mode with
  | always => exact .pure _
  | ifTrue => exact (reading .word).bind fun _ => (fetch _ _).bind fun _ => .pure _
  | ifFalse => exact (reading .word).bind fun _ => (fetch _ _).bind fun _ => .pure _

theorem goto (opcode : Opcode) : Tame (Action.goto opcode) :=
  (Within.lift (OrdinaryFaults.gotoMode _)).bind fun mode => (reading .word).bind fun target =>
    (isTaken opcode mode).bind fun taken => by
      cases taken with
      | true => exact jump target
      | false => exact .pure _

theorem operand : Tame Action.operand :=
  (reading .taggedOperand).bind fun _ => fetch _ _

theorem argument : Tame Action.argument :=
  (reading .word).bind fun _ => operand.bind fun _ => .pure _

/-- Running a standard native function, and going on with its reply. -/
theorem invoke {α : Type} (scope : Scope) (index : UInt8) {native : Native}
    (h : native.IsStandard) (positional : List Value) (named : List Argument)
    {k : Reply → Action α}
    (hk : ∀ reply, (∀ f, reply = .fault f → f.isData = true) → Tame (k reply)) :
    Tame (Action.invoke scope index native positional named >>= k) := by
  intro m
  obtain ⟨c, m₁, hm, run⟩ := invoke_run scope index native positional named m
  obtain ⟨world, clock, journal, faults⟩ :=
    h.run_spec c m₁.world (· = m₁.execution.receiver.slot)
  have e : (Action.invoke scope index native positional named >>= k) m =
      k (native.run c m₁.world).1 { m₁ with world := (native.run c m₁.world).2 } := by
    have bind_run : (Action.invoke scope index native positional named >>= k) m =
        ExceptT.bindCont k (Action.invoke scope index native positional named m).1
          (Action.invoke scope index native positional named m).2 := rfl
    rw [bind_run, run]
    rfl
  have counted : m.Follows m₁ := by
    rw [hm]
    exact ⟨.of_eq rfl rfl rfl, rfl, .push rfl, rfl, .refl _⟩
  rw [e]
  exact ⟨counted.trans ((Moment.Follows.of_world world clock journal).trans (hk _ faults _).1),
    (hk _ faults _).2⟩

theorem call (scope : Scope) (h : scope.environment.natives.IsStandard) (opcode : Opcode) :
    Tame (Action.call scope opcode) := by
  refine (reading .byte).bind fun index => (Within.lift (OrdinaryFaults.assignMode _)).bind
    fun place => (reading (.destinationIf place)).bind fun destination =>
    (reading .positionalCount).bind fun n => (operand.collect n).bind fun positional =>
    (reading .namedCount).bind fun n' => (argument.collect n').bind fun named => ?_
  cases hn : scope.environment.natives.slot index with
  | none => exact .throw rfl
  | some native =>
    refine invoke scope index (h index native hn) _ _ fun reply faults => ?_
    cases reply with
    | value v => exact (assignIf destination v).bind fun _ => .pure _
    | fault f => exact .throw (Fault.isOrdinary_of_isData (faults f rfl))
    | send s => exact .pure _

theorem setLine (line : UInt32) : Tame (Action.setLine line) :=
  .modify fun m => .of_execution ⟨rfl, rfl, rfl, rfl, by
    cases m.execution.role <;> rfl⟩

/-- A statement that is no call is tame whatever the natives are. -/
theorem rest_of_ne_call (scope : Scope) (opcode : Opcode) {command : Command}
    (h : command ≠ .call) : Tame (Action.rest scope opcode command) := by
  cases command with
  | assignUnary => exact (unary opcode).bind fun _ => .pure _
  | assignBinary => exact (binary opcode).bind fun _ => .pure _
  | goto => exact (goto opcode).bind fun _ => .pure _
  | call => exact absurd rfl h
  | leave =>
    show Tame (if opcode.handsOver then _ else _)
    split
    · exact .pure _
    · exact (reading .word).bind fun _ => (fetch _ _).bind fun _ => .pure _
  | line => exact (reading .word).bind fun _ => (setLine _).bind fun _ => .pure _

theorem rest (scope : Scope) (h : scope.environment.natives.IsStandard) (opcode : Opcode)
    (command : Command) : Tame (Action.rest scope opcode command) := by
  by_cases isCall : command = .call
  · subst isCall
    exact call scope h opcode
  · exact rest_of_ne_call scope opcode isCall

/-- **A statement is tame**, whatever code it is read from. -/
theorem statement (scope : Scope) (h : scope.environment.natives.IsStandard) :
    Tame (Action.statement scope) := by
  refine Within.get.bind fun m => (reading .byte).bind fun b =>
    (Within.lift (OrdinaryFaults.commandAt _ _)).bind fun command => ?_
  by_cases ht : scope.environment.settings.traceInstructions = true
  · simp only [ht, if_true]
    exact position.bind fun _ => (log rfl).bind fun _ => rest scope h _ command
  · simp only [ht]
    exact rest scope h _ command

end Tame

end Action

end MessageMachine
