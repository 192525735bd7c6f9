import MessageMachine.Proofs.Code.Spans

/-!
# Instructions are a prefix code

Whether and how an instruction is read depends on its own bytes alone.  The bytes that
were read give the same instruction wherever they stand, and as long as one of them is
missing at the end of the code, the reading runs past the end and nothing else comes
of it (`Instruction.decode_delimited`).

So the encodings of instructions are a prefix code.  There are no bytes of which one instruction is
read while a first part of them is read as another, and no check can fail on a first part that the
whole passes: each one looks at bytes that have been read already, and takes place before the next
byte is read.

`Delimits r bytes a` says this of a reading, of the bytes that it goes over and of their result.  It
passes from readings to those that are put together from them (`Delimits.bind`).  Hence a reading
that is put together from reads of bytes and words is `SelfDelimiting`: whenever it succeeds, it
does so on bytes that delimit themselves.
-/

namespace MessageMachine

variable {α β : Type}

/-! ## Code that ends too early -/

/-- The reading runs past the end of code that ends behind `bytes`.  It gets to an offset from which
what is needed next is not there. -/
def Overruns (r : Reading α) (bytes : List UInt8) : Prop :=
  ∀ before : List UInt8, ∃ offset needed,
    before.length ≤ offset ∧ offset ≤ (before ++ bytes).length ∧
      (before ++ bytes).length < offset + needed ∧
      r ⟨(before ++ bytes).toArray, before.length⟩ =
        (.error (.overrun offset needed (before ++ bytes).length),
          ⟨(before ++ bytes).toArray, offset⟩)

namespace Overruns

variable {r : Reading α} {bytes more : List UInt8} {a : α} {k : α → Reading β}

theorem byte : Overruns Cursor.byte [] := by
  intro before
  refine ⟨before.length, 1, Nat.le_refl _, by simp, by simp, ?_⟩
  rw [Cursor.byte_run]
  simp

theorem word (few : bytes.length < 4) : Overruns Cursor.word bytes := by
  intro before
  have missing : (before ++ bytes).toArray[before.length + 3]? = none := by
    simp
    omega
  refine ⟨before.length, 4, Nat.le_refl _, by simp, by simp; omega, ?_⟩
  rw [Cursor.word_run, missing]
  simp

/-- Nothing follows a reading that has run past the end. -/
theorem bind (h : Overruns r bytes) (k : α → Reading β) : Overruns (r >>= k) bytes := by
  intro before
  obtain ⟨offset, needed, after, inside, beyond, run⟩ := h before
  exact ⟨offset, needed, after, inside, beyond, bind_of_error run⟩

end Overruns

/-- A reading that gets behind its bytes runs past the end when the next one does. -/
theorem Reads.bind_overruns {r : Reading α} {bytes more : List UInt8} {a : α} {k : α → Reading β}
    (h : Reads r bytes a) (next : Overruns (k a) more) : Overruns (r >>= k) (bytes ++ more) := by
  intro before
  have first := h before more
  obtain ⟨offset, needed, after, inside, beyond, run⟩ := next (before ++ bytes)
  rw [List.length_append] at after
  rw [← List.length_append] at first
  rw [List.append_assoc] at first inside beyond run
  exact ⟨offset, needed, Nat.le_of_add_right_le after, inside, beyond, (bind_of_ok first).trans run⟩

/-! ## Bytes that delimit themselves -/

/-- The reading takes just `bytes` and gives `a`, and it runs past the end of code that ends before
the last of them. -/
structure Delimits (r : Reading α) (bytes : List UInt8) (a : α) : Prop where
  reads : Reads r bytes a
  overruns : ∀ part, part <+: bytes → part ≠ bytes → Overruns r part

namespace Delimits

variable {r : Reading α} {bytes more : List UInt8} {a : α} {k : α → Reading β} {b : β}

theorem pure (a : α) : Delimits (Pure.pure a) [] a :=
  ⟨Reads.pure a, fun _ front proper => absurd (List.prefix_nil.mp front) proper⟩

theorem byte (b : UInt8) : Delimits Cursor.byte [b] b := by
  refine ⟨Reads.byte b, fun part front proper => ?_⟩
  obtain rfl | ⟨rest, rfl, last⟩ := List.prefix_cons_iff.mp front
  · exact Overruns.byte
  · exact absurd (by rw [List.prefix_nil.mp last]) proper

theorem word (w : UInt32) : Delimits Cursor.word (bytesOfWord w) w := by
  refine ⟨Reads.word w, fun part front proper => Overruns.word ?_⟩
  by_contra enough
  exact proper (front.eq_of_length_le (Nat.not_lt.mp enough))

/-- Bytes that delimit themselves, put one behind the other. -/
theorem bind (h : Delimits r bytes a) (next : Delimits (k a) more b) :
    Delimits (r >>= k) (bytes ++ more) b := by
  refine ⟨h.reads.bind next.reads, fun part front proper => ?_⟩
  by_cases first : bytes <+: part
  · -- the first reading has all it needs
    obtain ⟨rest, rfl⟩ := first
    rw [List.prefix_append_right_inj] at front
    exact h.reads.bind_overruns (next.overruns rest front fun same => proper (by rw [same]))
  · have short : part <+: bytes :=
      (List.prefix_or_prefix_of_prefix front (List.prefix_append bytes more)).resolve_right first
    exact (h.overruns part short fun same => first (same ▸ List.prefix_rfl)).bind k

theorem lift {x : Except Fault α} (known : x = .ok a) : Delimits (liftM x) [] a := by
  subst known
  exact pure a

end Delimits

/-- Where the reading succeeds, it goes over bytes that delimit themselves. -/
def SelfDelimiting (r : Reading α) : Prop :=
  ∀ (c next : Cursor) (a : α), c.offset ≤ c.code.size → r c = (.ok a, next) →
    ∃ bytes, c.Spans bytes next ∧ Delimits r bytes a

namespace SelfDelimiting

variable {r : Reading α} {k : α → Reading β}

theorem pure (a : α) : SelfDelimiting (Pure.pure a : Reading α) := by
  intro c next a inside run
  cases run
  exact ⟨[], Cursor.spans_nil inside, Delimits.pure _⟩

theorem throw (f : Fault) : SelfDelimiting (MonadExcept.throw f : Reading α) := by
  intro c next a inside run
  cases run

theorem lift (x : Except Fault α) : SelfDelimiting (liftM x) := by
  cases x with
  | ok a => exact pure a
  | error f => exact throw f

theorem byte : SelfDelimiting Cursor.byte := fun c next b inside run =>
  ⟨[b], Spells.byte c next b inside run, Delimits.byte b⟩

theorem word : SelfDelimiting Cursor.word := fun c next w inside run =>
  ⟨bytesOfWord w, Spells.word c next w inside run, Delimits.word w⟩

theorem bind (hr : SelfDelimiting r) (hk : ∀ a, SelfDelimiting (k a)) :
    SelfDelimiting (r >>= k) := by
  intro c next b inside run
  obtain ⟨a, mid, first, second⟩ := ok_of_bind run
  obtain ⟨xs, spans, delimits⟩ := hr c mid a inside first
  obtain ⟨ys, spans', delimits'⟩ := hk a mid next b spans.inside second
  exact ⟨xs ++ ys, spans.append spans', delimits.bind delimits'⟩

theorem collect (hr : SelfDelimiting r) : ∀ n, SelfDelimiting (MessageMachine.collect r n)
  | 0 => pure _
  | n + 1 => hr.bind fun _ => (collect hr n).bind fun _ => pure _

/-! ## Reading an instruction -/

theorem operand (kind : OperandKind) : SelfDelimiting (Operand.decode kind) :=
  word.bind fun _ => pure _

theorem taggedOperand : SelfDelimiting Operand.decodeTagged :=
  byte.bind fun _ => (lift _).bind fun _ => operand _

theorem namedOperand : SelfDelimiting NamedOperand.decode :=
  word.bind fun _ => taggedOperand.bind fun _ => pure _

theorem destination (place : Place) : SelfDelimiting (Destination.decode place) :=
  word.bind fun _ => pure _

theorem destinationIf (place : Option Place) : SelfDelimiting (Destination.decodeIf place) := by
  cases place with
  | none => exact pure _
  | some p => exact (destination p).bind fun _ => pure _

/-- A count is checked as soon as it is read. -/
theorem limitedCount (limit : Nat) (refusal : Nat → Fault) :
    SelfDelimiting (limitedCount limit refusal) := by
  refine byte.bind fun count => ?_
  split
  · exact pure _
  · exact throw _

theorem decodeCall (opcode : Opcode) : SelfDelimiting (Instruction.decodeCall opcode) :=
  byte.bind fun _ => (lift _).bind fun _ => (destinationIf _).bind fun _ =>
    (limitedCount _ _).bind fun _ => (taggedOperand.collect _).bind fun _ =>
      (limitedCount _ _).bind fun _ => (namedOperand.collect _).bind fun _ => pure _

theorem decodeGoto (opcode : Opcode) : SelfDelimiting (Instruction.decodeGoto opcode) := by
  refine (lift _).bind fun mode => word.bind fun _ => ?_
  cases mode with
  | always => exact pure _
  | ifTrue | ifFalse => exact (operand _).bind fun _ => pure _

theorem decodeRest (opcode : Opcode) (command : Command) :
    SelfDelimiting (Instruction.decodeRest opcode command) := by
  cases command with
  | assignUnary =>
    exact (byte.bind fun _ => lift _).bind fun _ => (destination _).bind fun _ =>
      (operand _).bind fun _ => pure _
  | assignBinary =>
    exact (byte.bind fun _ => lift _).bind fun _ => (destination _).bind fun _ =>
      (operand _).bind fun _ => (operand _).bind fun _ => pure _
  | goto => exact decodeGoto opcode
  | call => exact decodeCall opcode
  | leave =>
    show SelfDelimiting (if opcode.handsOver then _ else _)
    split
    · exact pure _
    · exact (operand _).bind fun _ => pure _
  | line => exact word.bind fun _ => pure _

end SelfDelimiting

namespace Instruction

/-- An opcode for a command, before bytes that delimit what follows it. -/
theorem delimits_of_rest {b : UInt8} {command : Command} {rest : List UInt8} {i : Instruction}
    (known : Command.ofCode? (Opcode.ofByte b).command = some command)
    (h : Delimits (decodeRest (.ofByte b) command) rest i) : Delimits decode (b :: rest) i := by
  have found (offset : Nat) : (Opcode.ofByte b).commandAt offset = .ok command :=
    Opcode.commandAt_eq_ok_iff.mpr known
  -- decoding remembers where it began, for the complaint about an unknown command
  have whole (offset : Nat) : Delimits (Cursor.byte >>= fun b =>
      liftM ((Opcode.ofByte b).commandAt offset) >>= decodeRest (.ofByte b))
      ([b] ++ ([] ++ rest)) i :=
    (Delimits.byte b).bind ((Delimits.lift (found offset)).bind h)
  exact ⟨fun before => (whole before.length).reads before,
    fun part front proper before => (whole before.length).overruns part front proper before⟩

theorem selfDelimiting_decode : SelfDelimiting decode := by
  intro c next i inside run
  rw [Action.decode_run] at run
  obtain ⟨b, c₁, byte, run⟩ := ok_of_bind run
  obtain ⟨command, c₂, known, run⟩ := ok_of_bind run
  rw [liftM_run] at known
  cases congrArg Prod.snd known
  have spans := Cursor.spans_of_byte byte
  have found := Opcode.commandAt_eq_ok_iff.mp (congrArg Prod.fst known)
  obtain ⟨rest, spans', delimits⟩ := SelfDelimiting.decodeRest _ command c₁ next i spans.inside run
  exact ⟨b :: rest, spans.append spans', delimits_of_rest found delimits⟩

/-- An instruction that is read stands inside the code. -/
theorem exists_spans_of_decode {c next : Cursor} {i : Instruction}
    (h : decode c = (.ok i, next)) : ∃ bytes, c.Spans bytes next ∧ Delimits decode bytes i := by
  refine selfDelimiting_decode c next i ?_ h
  rw [Action.decode_run] at h
  obtain ⟨b, c₁, byte, -⟩ := ok_of_bind h
  have here := (Cursor.spans_of_byte byte).here
  exact Nat.le_of_lt (Array.getElem?_eq_some_iff.mp here).1

end Instruction

/-! ## The bytes of an instruction -/

namespace Cursor

variable {c next : Cursor} {bytes : List UInt8}

theorem Spans.next_eq (h : c.Spans bytes next) : next = ⟨c.code, c.offset + bytes.length⟩ := by
  obtain ⟨before, after, rfl, rfl⟩ := h
  rfl

theorem Spans.getElem? (h : c.Spans bytes next) {k : Nat} (lt : k < bytes.length) :
    c.code[c.offset + k]? = some bytes[k] := by
  obtain ⟨before, after, rfl, rfl⟩ := h
  simp only [List.append_assoc, List.getElem?_toArray]
  rw [List.getElem?_append_right (Nat.le_add_right _ _), Nat.add_sub_cancel_left,
    List.getElem?_append_left lt, List.getElem?_eq_getElem lt]

theorem spans_of_getElem? (inside : c.offset ≤ c.code.size)
    (h : ∀ k, (lt : k < bytes.length) → c.code[c.offset + k]? = some bytes[k]) :
    c.Spans bytes ⟨c.code, c.offset + bytes.length⟩ := by
  induction bytes generalizing c with
  | nil => exact spans_nil inside
  | cons b bytes ih =>
    have first : c.Spans [b] ⟨c.code, c.offset + 1⟩ := spans_byte (h 0 (by simp))
    have rest := ih (c := ⟨c.code, c.offset + 1⟩) first.inside fun k lt => by
      rw [Nat.add_assoc, Nat.add_comm 1 k]
      exact h (k + 1) (by simpa using lt)
    rw [Nat.add_assoc, Nat.add_comm 1] at rest
    exact first.append rest

/-- The bytes between two cursors are known. -/
theorem Spans.unique {bytes' : List UInt8} (h : c.Spans bytes next) (h' : c.Spans bytes' next) :
    bytes = bytes' := by
  have length : bytes.length = bytes'.length :=
    Nat.add_left_cancel (congrArg Cursor.offset (h.next_eq.symm.trans h'.next_eq))
  refine List.ext_getElem length fun k lt lt' => ?_
  exact Option.some_inj.mp ((h.getElem? lt).symm.trans (h'.getElem? lt'))

/-- Code that ends inside the bytes at a cursor ends behind a first part of them. -/
theorem Spans.exists_extract (h : c.Spans bytes next) {size : Nat} (after : c.offset ≤ size)
    (cut : size < next.offset) :
    ∃ before part, part <+: bytes ∧ part ≠ bytes ∧ c.offset = before.length ∧
      (before ++ part).length = size ∧ c.code.extract 0 size = (before ++ part).toArray := by
  obtain ⟨before, behind, rfl, rfl⟩ := h
  have short : size - before.length < bytes.length := by
    dsimp only at after cut
    omega
  have length : (bytes.take (size - before.length)).length = size - before.length := by
    rw [List.length_take]
    omega
  refine ⟨before, bytes.take (size - before.length), List.take_prefix _ _, ?_, rfl, ?_, ?_⟩
  · intro same
    rw [same] at length
    omega
  · rw [List.length_append, length]
    exact Nat.add_sub_cancel' after
  · have inside : before.length ≤ size := after
    rw [List.append_assoc, List.extract_toArray, List.extract_eq_take_drop, List.drop_zero,
      Nat.sub_zero, List.take_append, List.take_append_of_le_length (Nat.le_of_lt short),
      List.take_of_length_le inside]

end Cursor

/-- Bytes that such a reading takes delimit themselves. -/
theorem SelfDelimiting.delimits {r : Reading α} {bytes : List UInt8} {a : α} (h : SelfDelimiting r)
    (reads : Reads r bytes a) : Delimits r bytes a := by
  have spans : Cursor.Spans ⟨bytes.toArray, 0⟩ bytes ⟨bytes.toArray, bytes.length⟩ :=
    ⟨[], [], by simp⟩
  obtain ⟨bytes', spans', delimits⟩ := h _ _ a (Nat.zero_le _) (spans.run reads)
  rwa [spans.unique spans']

/-- **An instruction is delimited by its bytes.**  An instruction that is read takes at least one
byte.  Wherever these bytes stand, whatever is before and behind them, the same instruction is read,
and it ends behind them.  Where the code ends before the last of them, the reading runs past the
end: it gets to an offset from which it needs more bytes than there are. -/
theorem Instruction.decode_delimited {c next : Cursor} {i : Instruction}
    (h : decode c = (.ok i, next)) :
    next.code = c.code ∧ c.offset < next.offset ∧ next.offset ≤ c.code.size ∧
      (∀ (code : Array UInt8) (place : Nat),
        (∀ k < next.offset - c.offset, code[place + k]? = c.code[c.offset + k]?) →
        decode ⟨code, place⟩ = (.ok i, ⟨code, place + (next.offset - c.offset)⟩)) ∧
      ∀ size, c.offset ≤ size → size < next.offset →
        ∃ offset needed, c.offset ≤ offset ∧ offset ≤ size ∧ size < offset + needed ∧
          decode ⟨c.code.extract 0 size, c.offset⟩ =
            (.error (.overrun offset needed size), ⟨c.code.extract 0 size, offset⟩) := by
  obtain ⟨code, advances⟩ := decode_advances h
  obtain ⟨bytes, spans, delimits⟩ := exists_spans_of_decode h
  have inside := spans.inside
  rw [code] at inside
  have length : next.offset - c.offset = bytes.length := by
    rw [show next.offset = c.offset + bytes.length from congrArg Cursor.offset spans.next_eq]
    exact Nat.add_sub_cancel_left _ _
  refine ⟨code, advances, inside, fun code' place same => ?_, fun size after cut => ?_⟩
  · rw [length] at same ⊢
    have pos : 0 < bytes.length := by omega
    have there : ∀ k, (lt : k < bytes.length) → code'[place + k]? = some bytes[k] :=
      fun k lt => (same k lt).trans (spans.getElem? lt)
    have start : place ≤ code'.size :=
      Nat.le_of_lt (Array.getElem?_eq_some_iff.mp (there 0 pos)).1
    exact (Cursor.spans_of_getElem? (c := ⟨code', place⟩) start there).run delimits.reads
  · obtain ⟨before, part, front, proper, start, rfl, shorter⟩ := spans.exists_extract after cut
    rw [shorter, start]
    exact delimits.overruns part front proper before

/-- A call with a destination and an operand of either sort. -/
def Instruction.asking : Instruction :=
  .call 7 (some (.ofLocal 1)) [.ofLocal 0] [⟨⟨3⟩, .ofProperty 0⟩]

/-- The call is read behind a byte that is no part of it, and it reads the same at another place.
Without its last byte it cannot be read. -/
theorem Instruction.decode_delimited_asking :
    decode ⟨(255 :: asking.bytes).toArray, 1⟩ = (.ok asking, ⟨(255 :: asking.bytes).toArray, 23⟩) ∧
      decode ⟨(asking.bytes ++ [152]).toArray, 0⟩ =
        (.ok asking, ⟨(asking.bytes ++ [152]).toArray, 22⟩) ∧
      ∃ offset needed, 22 < offset + needed ∧
        (decode ⟨(255 :: asking.bytes).toArray.extract 0 22, 1⟩).1 =
          .error (.overrun offset needed 22) := by
  have read : decode ⟨(255 :: asking.bytes).toArray, 1⟩ =
      (.ok asking, ⟨(255 :: asking.bytes).toArray, 23⟩) := by
    rfl
  obtain ⟨-, -, -, moved, cut⟩ := decode_delimited read
  obtain ⟨offset, needed, -, -, beyond, overruns⟩ := cut 22 (by decide) (by decide)
  exact ⟨read, moved _ 0 (by decide), offset, needed, beyond, congrArg Prod.fst overruns⟩

end MessageMachine
