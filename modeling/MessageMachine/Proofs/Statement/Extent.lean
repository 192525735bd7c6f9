import MessageMachine.Proofs.Code.Spans
import MessageMachine.Proofs.Statement.Invocation

/-!
# How far a statement reads

A statement takes byte after byte off the code, from where it stands up to some offset.  This offset
is not beyond the end of the code, and what the statement does it has from the bytes up to there:
with any other code of the same size that has these bytes in these places, it does the same
(`Action.extent_statement`).  What the rest of the body is like does not matter to it.

`Extent a s stop` says this of a computation `a` in a state `s`.  It speaks of readings and of
actions in the same words.  A computation *reads on* if its extent ends where it leaves the cursor;
computations that read on one after the other read on together (`ReadsOn.bind`).  A statement reads
on, but for one thing: it may jump when all is read, and then it stands among the instructions.
-/

namespace MessageMachine

/-! ## Code that is the same in part -/

/-- The other code has the same size, and the same bytes from `start` on up to `stop`. -/
structure SameBetween (code code' : Array UInt8) (start stop : Nat) : Prop where
  size : code'.size = code.size
  bytes : ∀ i, start ≤ i → i < stop → code'[i]? = code[i]?

theorem SameBetween.mono {code code' : Array UInt8} {start start' stop stop' : Nat}
    (h : SameBetween code code' start stop) (later : start ≤ start') (sooner : stop' ≤ stop) :
    SameBetween code code' start' stop' :=
  ⟨h.size, fun i hi hi' => h.bytes i (Nat.le_trans later hi) (Nat.lt_of_lt_of_le hi' sooner)⟩

/-! ## Extents -/

section Extents

variable {σ α β : Type} (place : σ → Cursor) (onCode : σ → Array UInt8 → σ)

/-- In the state `s` the computation reads up to `stop`, and does the same with all code that is the
same up to there. -/
structure Extent (a : ExceptT Fault (StateM σ) α) (s : σ) (stop : Nat) : Prop where
  after : (place s).offset ≤ stop
  inside : (place s).offset ≤ (place s).code.size → stop ≤ (place s).code.size
  same : ∀ code', SameBetween (place s).code code' (place s).offset stop →
    a (onCode s code') = ((a s).1, onCode (a s).2 code')

/-- The computation reads up to where it leaves the cursor. -/
def ReadsOn (a : ExceptT Fault (StateM σ) α) : Prop :=
  ∀ s, (place (a s).2).code = (place s).code ∧ Extent place onCode a s (place (a s).2).offset

variable {place onCode}

/-- A computation that fails extends as far as it got. -/
theorem Extent.bind_of_error {a : ExceptT Fault (StateM σ) α}
    {k : α → ExceptT Fault (StateM σ) β} {s s' : σ} {f : Fault} {stop : Nat}
    (run : a s = (.error f, s')) (h : Extent place onCode a s stop) :
    Extent place onCode (a >>= k) s stop := by
  refine ⟨h.after, h.inside, fun code' agree => ?_⟩
  have run' := h.same code' agree
  rw [run] at run'
  rw [MessageMachine.bind_of_error run, MessageMachine.bind_of_error run']

/-- What follows a computation that reads on extends the whole. -/
theorem Extent.bind_of_ok {a : ExceptT Fault (StateM σ) α} {k : α → ExceptT Fault (StateM σ) β}
    {s s' : σ} {x : α} {stop : Nat} (run : a s = (.ok x, s'))
    (code : (place s').code = (place s).code) (h : Extent place onCode a s (place s').offset)
    (next : Extent place onCode (k x) s' stop) : Extent place onCode (a >>= k) s stop := by
  refine ⟨Nat.le_trans h.after next.after, fun start => ?_, fun code' agree => ?_⟩
  · exact code ▸ next.inside (code.symm ▸ h.inside start)
  · have run' := h.same code' (agree.mono (Nat.le_refl _) next.after)
    rw [run] at run'
    rw [MessageMachine.bind_of_ok run, MessageMachine.bind_of_ok run']
    exact next.same code' (code.symm ▸ agree.mono h.after (Nat.le_refl _))

namespace ReadsOn

theorem pure (a : α) : ReadsOn place onCode (Pure.pure a : ExceptT Fault (StateM σ) α) :=
  fun _ => ⟨rfl, Nat.le_refl _, id, fun _ _ => rfl⟩

theorem throw (f : Fault) :
    ReadsOn place onCode (MonadExcept.throw f : ExceptT Fault (StateM σ) α) :=
  fun _ => ⟨rfl, Nat.le_refl _, id, fun _ _ => rfl⟩

theorem lift (x : Except Fault α) :
    ReadsOn place onCode (liftM x : ExceptT Fault (StateM σ) α) := by
  cases x with
  | ok a => exact pure a
  | error f => exact throw f

theorem bind {a : ExceptT Fault (StateM σ) α} {k : α → ExceptT Fault (StateM σ) β}
    (ha : ReadsOn place onCode a) (hk : ∀ x, ReadsOn place onCode (k x)) :
    ReadsOn place onCode (a >>= k) := by
  intro s
  obtain ⟨code, extent⟩ := ha s
  generalize run : a s = outcome at code extent
  match outcome with
  | (.error f, s') =>
    rw [bind_of_error run]
    exact ⟨code, extent.bind_of_error run⟩
  | (.ok x, s') =>
    obtain ⟨code', extent'⟩ := hk x s'
    rw [bind_of_ok run]
    exact ⟨code'.trans code, extent.bind_of_ok run code extent'⟩

theorem collect {a : ExceptT Fault (StateM σ) α} (ha : ReadsOn place onCode a) :
    ∀ n, ReadsOn place onCode (MessageMachine.collect a n)
  | 0 => pure _
  | n + 1 => ha.bind fun _ => (collect ha n).bind fun _ => pure _

end ReadsOn

end Extents

/-! ## Readings -/

/-- There is no word where the code ends before its fourth byte. -/
theorem Cursor.word_of_short {c : Cursor} (short : c.code.size ≤ c.offset + 3) :
    Cursor.word c = (.error (.overrun c.offset 4 c.code.size), c) := by
  rw [word_run, Array.getElem?_eq_none_iff.mpr short]
  split
  · rename_i missing
    cases missing
  · rfl

/-- A word that was read. -/
theorem Cursor.spans_of_word {c next : Cursor} {w : UInt32} (run : Cursor.word c = (.ok w, next)) :
    c.Spans (bytesOfWord w) next := by
  refine Spells.word c next w ?_ run
  by_contra outside
  rw [word_of_short (by omega)] at run
  cases run

/-- The word of four bytes in the code is the word of the same four bytes in other code. -/
theorem Cursor.exists_word {c : Cursor} (inside : c.offset + 3 < c.code.size) :
    ∃ w, ∀ {code : Array UInt8}, SameBetween c.code code c.offset (c.offset + 4) →
      Cursor.word ⟨code, c.offset⟩ = (.ok w, ⟨code, c.offset + 4⟩) := by
  refine ⟨wordOfBytes c.code[c.offset] c.code[c.offset + 1] c.code[c.offset + 2]
    c.code[c.offset + 3], fun {code} agree => ?_⟩
  have same (i : Nat) (above : c.offset ≤ i) (below : i < c.offset + 4) :
      code[i]? = some c.code[i] :=
    (agree.bytes i above below).trans (Array.getElem?_eq_getElem (by omega))
  rw [word_run]
  dsimp only
  rw [same c.offset (by omega) (by omega), same (c.offset + 1) (by omega) (by omega),
    same (c.offset + 2) (by omega) (by omega), same (c.offset + 3) (by omega) (by omega)]

/-- The reading goes over all that it reads. -/
abbrev Reading.Goes {α : Type} (r : Reading α) : Prop :=
  ReadsOn id (fun c code' => { c with code := code' }) r

namespace Reading.Goes

theorem byte : Goes Cursor.byte := by
  intro c
  have run := Cursor.byte_run c
  cases found : c.code[c.offset]? with
  | none =>
    rw [found] at run
    have outside := Array.getElem?_eq_none_iff.mp found
    rw [run]
    refine ⟨rfl, Nat.le_refl _, id, fun code' agree => ?_⟩
    have missing : code'[c.offset]? = none :=
      Array.getElem?_eq_none_iff.mpr (agree.size.symm ▸ outside)
    rw [Cursor.byte_run, run]
    dsimp only
    rw [missing, agree.size]
    rfl
  | some b =>
    rw [found] at run
    have inside := (Array.getElem?_eq_some_iff.mp found).1
    rw [run]
    refine ⟨rfl, Nat.le_succ _, fun _ => inside, fun code' agree => ?_⟩
    have same : code'[c.offset]? = some b :=
      (agree.bytes c.offset (Nat.le_refl _) (Nat.lt_succ_self _)).trans found
    rw [Cursor.byte_run, run]
    dsimp only
    rw [same]

theorem word : Goes Cursor.word := by
  intro c
  rcases Nat.lt_or_ge (c.offset + 3) c.code.size with inside | short
  · obtain ⟨w, run⟩ := Cursor.exists_word inside
    have here := run ⟨rfl, fun _ _ _ => rfl⟩
    rw [here]
    refine ⟨rfl, Nat.le_add_right _ _, fun _ => inside, fun code' agree => ?_⟩
    exact (run agree).trans (by rw [here])
  · have here := Cursor.word_of_short short
    rw [here]
    refine ⟨rfl, Nat.le_refl _, id, fun code' agree => ?_⟩
    have short' : code'.size ≤ c.offset + 3 := agree.size.symm ▸ short
    refine (Cursor.word_of_short (c := ⟨code', c.offset⟩) short').trans ?_
    rw [here, agree.size]
    rfl

theorem operand (kind : OperandKind) : Goes (Operand.decode kind) :=
  word.bind fun _ => .pure _

theorem taggedOperand : Goes Operand.decodeTagged :=
  byte.bind fun _ => (ReadsOn.lift _).bind fun _ => operand _

theorem destinationIf (place : Option Place) : Goes (Destination.decodeIf place) := by
  cases place with
  | none => exact .pure _
  | some p => exact (word.bind fun _ => .pure _).bind fun _ => .pure _

theorem unaryOp : Goes UnaryOp.decode := byte.bind fun _ => .lift _

theorem binaryOp : Goes BinaryOp.decode := byte.bind fun _ => .lift _

theorem positionalCount : Goes positionalCount := byte.bind fun _ => by
  split
  · exact .pure _
  · exact .throw _

theorem namedCount : Goes namedCount := byte.bind fun _ => by
  split
  · exact .pure _
  · exact .throw _

end Reading.Goes

/-! ## Actions -/

/-- The moment with other code, at the same offset. -/
def Moment.onCode (m : Moment) (code : Array UInt8) : Moment :=
  m.moveTo { m.execution.cursor with code }

namespace Action

/-- The action goes over all that it reads. -/
abbrev Goes {α : Type} (a : Action α) : Prop :=
  ReadsOn (fun m : Moment => m.execution.cursor) Moment.onCode a

/-- The extent of an action that may jump. -/
abbrev Extends {α : Type} (a : Action α) (m : Moment) (stop : Nat) : Prop :=
  Extent (fun m : Moment => m.execution.cursor) Moment.onCode a m stop

/-- A placeless action leaves the execution where it was. -/
theorem Placeless.cursor {α : Type} {a : Action α} (ha : a.Placeless) (m : Moment) :
    (a m).2.execution.cursor = m.execution.cursor := by
  have stays := congrArg (fun p : Except Fault α × Moment => p.2.execution.cursor)
    (ha m m.execution.cursor)
  exact stays

theorem placeless_assign (destination : Destination) (value : Value) :
    (assign destination value).Placeless := by
  intro m c
  have same : (m.moveTo c).world.write (m.moveTo c).execution.receiver (m.moveTo c).execution.frame
      destination.place.kind destination.index value =
    m.world.write m.execution.receiver m.execution.frame destination.place.kind destination.index
      value := rfl
  rw [assign_run, assign_run, same]
  generalize m.world.write m.execution.receiver m.execution.frame destination.place.kind
    destination.index value = outcome
  match outcome with
  | (.ok frame, w) => rfl
  | (.error f, w) => rfl

theorem placeless_assignIf (destination : Option Destination) (value : Value) :
    (assignIf destination value).Placeless := by
  cases destination with
  | none => exact .pure _
  | some d => exact placeless_assign d value

namespace Goes

/-- An action that does not look at the code reads nothing. -/
theorem of_placeless {α : Type} {a : Action α} (ha : a.Placeless) : Goes a := by
  intro m
  have stays := ha.cursor m
  refine ⟨congrArg Cursor.code stays, ?_⟩
  dsimp only
  rw [stays]
  refine ⟨Nat.le_refl _, id, fun code' _ => ?_⟩
  rw [Moment.onCode, ha, Moment.onCode, stays]

theorem reading {α : Type} {r : Reading α} (h : r.Goes) : Goes (Action.reading r) := by
  intro m
  obtain ⟨code, after, inside, same⟩ := h m.execution.cursor
  rw [reading_run]
  refine ⟨code, after, inside, fun code' agree => ?_⟩
  have run : r (m.onCode code').execution.cursor = _ := same code' agree
  rw [reading_run, reading_run, run]
  rfl

theorem position : Goes Action.position := of_placeless fun _ _ => rfl

theorem log (x : Entry) : Goes (Action.log x) := of_placeless fun _ _ => rfl

theorem setLine (line : UInt32) : Goes (Action.setLine line) := of_placeless fun _ _ => rfl

theorem fetch (kind : OperandKind) (data : UInt32) : Goes (Action.fetch kind data) :=
  of_placeless (placeless_fetchOperand ⟨kind, data⟩)

theorem assign (destination : Destination) (value : Value) :
    Goes (Action.assign destination value) :=
  of_placeless (placeless_assign destination value)

theorem assignIf (destination : Option Destination) (value : Value) :
    Goes (Action.assignIf destination value) :=
  of_placeless (placeless_assignIf destination value)

theorem invoke (scope : Scope) (index : UInt8) (native : Native) (positional : List Value)
    (named : List Argument) : Goes (Action.invoke scope index native positional named) :=
  of_placeless fun m c => by rw [invoke_eq, invoke_eq]; rfl

theorem unary (opcode : Opcode) : Goes (Action.unary opcode) :=
  (reading .unaryOp).bind fun _ => (reading .word).bind fun _ => (reading .word).bind fun _ =>
    (fetch _ _).bind fun _ => (ReadsOn.lift _).bind fun _ => assign _ _

theorem binary (opcode : Opcode) : Goes (Action.binary opcode) :=
  (reading .binaryOp).bind fun _ => (reading .word).bind fun _ => (reading .word).bind fun _ =>
    (reading .word).bind fun _ => (fetch _ _).bind fun _ => (fetch _ _).bind fun _ =>
      (ReadsOn.lift _).bind fun _ => assign _ _

theorem isTaken (opcode : Opcode) (mode : GotoMode) : Goes (Action.isTaken opcode mode) := by
  cases mode with
  | always => exact .pure _
  | ifTrue => exact (reading .word).bind fun _ => (fetch _ _).bind fun _ => .pure _
  | ifFalse => exact (reading .word).bind fun _ => (fetch _ _).bind fun _ => .pure _

theorem operand : Goes Action.operand := (reading .taggedOperand).bind fun _ => fetch _ _

theorem argument : Goes Action.argument :=
  (reading .word).bind fun _ => operand.bind fun _ => .pure _

theorem call (scope : Scope) (opcode : Opcode) : Goes (Action.call scope opcode) := by
  refine (reading .byte).bind fun index => (ReadsOn.lift _).bind fun place =>
    (reading (.destinationIf place)).bind fun destination =>
    (reading .positionalCount).bind fun n => (operand.collect n).bind fun positional =>
    (reading .namedCount).bind fun n' => (argument.collect n').bind fun named => ?_
  cases scope.environment.natives.slot index with
  | none => exact .throw _
  | some native =>
    refine (invoke scope index native _ _).bind fun reply => ?_
    cases reply with
    | value v => exact (assignIf destination v).bind fun _ => .pure _
    | fault f => exact .throw f
    | send s => exact .pure _

end Goes

/-! ## Jumps -/

/-- The action goes over all that it reads, and may jump then. -/
def GoesAndJumps {α : Type} (a : Action α) : Prop :=
  ∀ m, ∃ stop, Extends a m stop ∧
    ((a m).2.execution.cursor.offset = stop ∨
      (a m).2.execution.codeStart ≤ (a m).2.execution.cursor.offset ∧
        (a m).2.execution.cursor.offset < (a m).2.execution.cursor.code.size)

/-- **What a jump comes to**: it goes to its target, if this lies among the instructions, and else
it fails and stays where it is. -/
theorem jump_eq (target : UInt32) (m : Moment) :
    jump target m =
      if m.execution.codeStart ≤ target.toNat ∧ target.toNat < m.execution.cursor.code.size then
        (.ok (), m.moveTo { m.execution.cursor with offset := target.toNat })
      else (.error (.branchOutOfRange target.toNat m.execution.cursor.code.size), m) := by
  have run : jump target m =
      (if target.toNat < m.execution.codeStart then
        throw (.branchOutOfRange target.toNat m.execution.cursor.code.size)
      else reading (Cursor.seek target.toNat) : Action Unit) m := rfl
  by_cases above : m.execution.codeStart ≤ target.toNat
  · rw [run, if_neg (Nat.not_lt.mpr above), reading_run, Cursor.seek_run]
    by_cases below : target.toNat < m.execution.cursor.code.size
    · rw [if_pos below, if_pos ⟨above, below⟩]
      rfl
    · have word : min target.toNat (UInt32.size - 1) = target.toNat :=
        Nat.min_eq_left (Nat.le_sub_one_of_lt target.toNat_lt)
      rw [if_neg below, if_neg fun h => below h.2, word]
  · rw [run, if_pos (Nat.not_le.mp above), if_neg fun h => above h.1]
    rfl

namespace GoesAndJumps

variable {α β : Type}

theorem of_goes {a : Action α} (h : Goes a) : GoesAndJumps a :=
  fun m => ⟨_, (h m).2, .inl rfl⟩

theorem bind {a : Action α} {k : α → Action β} (ha : Goes a) (hk : ∀ x, GoesAndJumps (k x)) :
    GoesAndJumps (a >>= k) := by
  intro m
  obtain ⟨code, extent⟩ := ha m
  generalize run : a m = outcome at code extent
  match outcome with
  | (.error f, m') =>
    refine ⟨_, extent.bind_of_error run, .inl ?_⟩
    rw [bind_of_error run]
  | (.ok x, m') =>
    obtain ⟨stop, extent', stands⟩ := hk x m'
    refine ⟨stop, extent.bind_of_ok run code extent', ?_⟩
    rw [bind_of_ok run]
    exact stands

theorem jump (target : UInt32) : GoesAndJumps (Action.jump target) := by
  intro m
  refine ⟨m.execution.cursor.offset, ⟨Nat.le_refl _, id, fun code' agree => ?_⟩, ?_⟩
  · have size : (m.onCode code').execution.cursor.code.size = m.execution.cursor.code.size :=
      agree.size
    have start : (m.onCode code').execution.codeStart = m.execution.codeStart := rfl
    rw [jump_eq, jump_eq, size, start]
    split <;> rfl
  · rw [jump_eq]
    split
    · rename_i inside
      exact .inr inside
    · exact .inl rfl

theorem goto (opcode : Opcode) : GoesAndJumps (Action.goto opcode) :=
  bind (ReadsOn.lift _) fun mode => bind (.reading .word) fun target =>
    bind (.isTaken opcode mode) fun taken => by
      cases taken with
      | true => exact jump target
      | false => exact of_goes (.pure _)

/-- Nothing is read after a jump. -/
theorem thenPure {a : Action α} (ha : GoesAndJumps a) (b : β) :
    GoesAndJumps (a >>= fun _ => Pure.pure b) := by
  intro m
  obtain ⟨stop, extent, stands⟩ := ha m
  generalize run : a m = outcome at stands
  match outcome with
  | (.error f, m') =>
    rw [bind_of_error run]
    exact ⟨stop, extent.bind_of_error run, stands⟩
  | (.ok x, m') =>
    rw [bind_of_ok run]
    refine ⟨stop, ⟨extent.after, extent.inside, fun code' agree => ?_⟩, stands⟩
    have run' := extent.same code' agree
    rw [run] at run'
    rw [bind_of_ok run, bind_of_ok run']
    rfl

theorem rest (scope : Scope) (opcode : Opcode) (command : Command) :
    GoesAndJumps (Action.rest scope opcode command) := by
  cases command with
  | assignUnary => exact of_goes ((Goes.unary opcode).bind fun _ => .pure _)
  | assignBinary => exact of_goes ((Goes.binary opcode).bind fun _ => .pure _)
  | goto => exact (goto opcode).thenPure _
  | call => exact of_goes (.call scope opcode)
  | leave =>
    show GoesAndJumps (if opcode.handsOver then _ else _)
    split
    · exact of_goes (.pure _)
    · exact of_goes ((Goes.reading .word).bind fun _ => (Goes.fetch _ _).bind fun _ => .pure _)
  | line =>
    exact of_goes ((Goes.reading .word).bind fun _ => (Goes.setLine _).bind fun _ => .pure _)

end GoesAndJumps

/-- **All that a statement reads is in the code**, from where the statement stands up to some
offset.  It does the same with other code that is the same up to there.  When it is done, its
execution stands at that offset, unless it has jumped: then it stands among the instructions. -/
theorem extent_statement (scope : Scope) : GoesAndJumps (statement scope) := by
  intro m
  -- the offset of the statement is kept for the complaint about an unknown command
  have whole : GoesAndJumps (Action.reading Cursor.byte >>= fun b =>
      liftM ((Opcode.ofByte b).commandAt m.execution.cursor.offset) >>= fun command => do
        if scope.environment.settings.traceInstructions then
          log (.instruction (← position) m.execution.cursor.offset command (.ofByte b))
        rest scope (.ofByte b) command) := by
    refine .bind (.reading .byte) fun b => .bind (ReadsOn.lift _) fun command => ?_
    by_cases ht : scope.environment.settings.traceInstructions = true
    · simp only [ht, if_true]
      exact .bind .position fun _ => .bind (.log _) fun _ => .rest scope _ command
    · simp only [ht]
      exact .rest scope _ command
  obtain ⟨stop, extent, stands⟩ := whole m
  rw [← statement_run] at stands
  refine ⟨stop, ⟨extent.after, extent.inside, fun code' agree => ?_⟩, stands⟩
  rw [statement_run scope m, ← extent.same code' agree]
  exact statement_run scope (m.onCode code')

end Action

end MessageMachine
