import MessageMachine.Proofs.Code.Counts
import MessageMachine.Proofs.Statement.InPlace

/-!
# What was read was there

`Reads` says what a reading makes of bytes that have been written.  Here is the way back.  A reading
that has succeeded went over some bytes, and these are the bytes that would be written for its
result (`Spells`); so whoever knows a result knows the code up to where it ended.

`c.Spans bytes next` says that `bytes` stand at the cursor `c`, and that `next` is the cursor behind
them. Spans are joined and cut like lists (`Cursor.spans_append`), which takes readings that follow
one another apart.

An opcode byte has more to it than decoding looks at: a call may have anything in its destination
bit and in its second source.  `Opcode.IsCall` leaves these bits open.  Otherwise an instruction
that decodes to a call is spelled as the assembler would spell it (`Instruction.decode_call_iff`).
-/

namespace MessageMachine

/-! ## Bytes at a cursor -/

namespace Cursor

/-- The bytes stand at the first cursor, and the second one is behind them. -/
def Spans (c : Cursor) (bytes : List UInt8) (next : Cursor) : Prop :=
  ∃ before after : List UInt8,
    c = ⟨(before ++ bytes ++ after).toArray, before.length⟩ ∧
      next = ⟨(before ++ bytes ++ after).toArray, before.length + bytes.length⟩

variable {c mid next : Cursor} {bytes xs ys : List UInt8} {b : UInt8}

/-- No bytes stand everywhere in the code. -/
theorem spans_nil (inside : c.offset ≤ c.code.size) : c.Spans [] c := by
  refine ⟨c.code.toList.take c.offset, c.code.toList.drop c.offset, ?_⟩
  have length : (c.code.toList.take c.offset).length = c.offset := by
    rw [List.length_take]
    exact Nat.min_eq_left inside
  rw [List.append_nil, List.take_append_drop, length]
  exact ⟨rfl, rfl⟩

/-- A byte that is there. -/
theorem spans_byte (here : c.code[c.offset]? = some b) :
    c.Spans [b] { c with offset := c.offset + 1 } := by
  obtain ⟨lt, value⟩ := Array.getElem?_eq_some_iff.mp here
  have lt' : c.offset < c.code.toList.length := lt
  have whole : c.code.toList.take c.offset ++ [b] ++ c.code.toList.drop (c.offset + 1) =
      c.code.toList := by
    rw [← value, ← Array.getElem_toList lt, List.take_append_getElem lt', List.take_append_drop]
  have length : (c.code.toList.take c.offset).length = c.offset := by
    rw [List.length_take]
    exact Nat.min_eq_left (Nat.le_of_lt lt)
  refine ⟨c.code.toList.take c.offset, c.code.toList.drop (c.offset + 1), ?_⟩
  rw [whole, length]
  exact ⟨rfl, rfl⟩

/-- A byte that was read. -/
theorem spans_of_byte (run : Cursor.byte c = (.ok b, next)) : c.Spans [b] next := by
  rw [Cursor.byte_run] at run
  cases here : c.code[c.offset]? with
  | none =>
    rw [here] at run
    cases run
  | some x =>
    rw [here] at run
    cases run
    exact spans_byte here

namespace Spans

theorem inside (h : c.Spans bytes next) : next.offset ≤ next.code.size := by
  obtain ⟨before, after, -, rfl⟩ := h
  simp only [List.size_toArray, List.length_append]
  omega

theorem here (h : c.Spans (b :: bytes) next) : c.code[c.offset]? = some b := by
  obtain ⟨before, after, rfl, rfl⟩ := h
  simp

/-- There is code left where a byte stands. -/
theorem atEnd (h : c.Spans (b :: bytes) next) : c.atEnd = false := by
  obtain ⟨lt, -⟩ := Array.getElem?_eq_some_iff.mp h.here
  simpa [Cursor.atEnd] using lt

/-- What is read of bytes that stand at a cursor. -/
theorem run {α : Type} {r : Reading α} {a : α} (h : c.Spans bytes next) (reads : Reads r bytes a) :
    r c = (.ok a, next) := by
  obtain ⟨before, after, rfl, rfl⟩ := h
  exact reads before after

end Spans

/-- Bytes are spanned by going over a first part of them and then over the others. -/
theorem spans_append : c.Spans (xs ++ ys) next ↔ ∃ mid, c.Spans xs mid ∧ mid.Spans ys next := by
  constructor
  · rintro ⟨before, after, rfl, rfl⟩
    refine ⟨⟨(before ++ (xs ++ ys) ++ after).toArray, before.length + xs.length⟩,
      ⟨before, ys ++ after, ?_⟩, before ++ xs, after, ?_⟩
    · simp
    · simp [Nat.add_assoc]
  · rintro ⟨_, ⟨before, behind, rfl, rfl⟩, before', after, start, rfl⟩
    obtain ⟨code, place⟩ := Cursor.mk.inj start
    have code : (before ++ xs) ++ behind = before' ++ (ys ++ after) := by
      rw [← List.append_assoc]
      exact List.toArray_inj code
    obtain ⟨rfl, rfl⟩ := List.append_inj code (by rw [List.length_append, place])
    refine ⟨before, after, ?_, ?_⟩
    · simp
    · simp [Nat.add_assoc]

theorem Spans.append (first : c.Spans xs mid) (second : mid.Spans ys next) :
    c.Spans (xs ++ ys) next :=
  spans_append.mpr ⟨mid, first, second⟩

end Cursor

/-! ## Readings that spell their results -/

/-- A reading that succeeds goes over the bytes of its result. -/
def Spells {α : Type} (r : Reading α) (encode : α → List UInt8) : Prop :=
  ∀ (c next : Cursor) (a : α), c.offset ≤ c.code.size → r c = (.ok a, next) →
    c.Spans (encode a) next

/-- The bytes of a word that was put together are the ones that it was put together from. -/
theorem bytesOfWord_wordOfBytes (a b c d : UInt8) :
    bytesOfWord (wordOfBytes a b c d) = [a, b, c, d] := by
  have lowest {n : Nat} (x : BitVec n) (y : BitVec 8) : (x ++ y).extractLsb' 0 8 = y := by
    ext i h
    simp [BitVec.getLsbD_append, h]
  have higher {n : Nat} (k : Nat) (x : BitVec n) (y : BitVec 8) :
      (x ++ y).extractLsb' (k + 8) 8 = x.extractLsb' k 8 := by
    ext i h
    have above : ¬ k + 8 + i < 8 := by omega
    have place : k + 8 + i - 8 = k + i := by omega
    simp [BitVec.getLsbD_append, above, place]
  have all (x : BitVec 8) : x.extractLsb' 0 8 = x := BitVec.extractLsb'_eq_self
  simp only [bytesOfWord, wordOfBytes, lowest, higher 0, higher 8, higher 16, all]

/-- A byte that stands for a kind is the code of the kind. -/
theorem OperandKind.eq_code_of_ofByte {b : UInt8} {kind : OperandKind}
    (known : OperandKind.ofByte b = .ok kind) : b = kind.code := by
  unfold OperandKind.ofByte at known
  split at known
  · rename_i lt
    cases known
    have few : b = 0 ∨ b = 1 ∨ b = 2 ∨ b = 3 := by
      simp only [← UInt8.toNat_inj, UInt8.reduceToNat]
      omega
    rcases few with rfl | rfl | rfl | rfl <;> rfl
  · cases known

namespace Spells

theorem byte : Spells Cursor.byte fun b => [b] := fun _ _ _ _ run => Cursor.spans_of_byte run

theorem word : Spells Cursor.word bytesOfWord := by
  intro c next w inside run
  rw [Cursor.word_run] at run
  split at run
  · rename_i b₀ b₁ b₂ b₃ h₀ h₁ h₂ h₃
    cases run
    rw [bytesOfWord_wordOfBytes]
    exact (Cursor.spans_byte h₀).append ((Cursor.spans_byte h₁).append
      ((Cursor.spans_byte h₂).append (Cursor.spans_byte h₃)))
  · cases run

/-- A reading that goes on behind a first one spells the bytes of both. -/
theorem bind {α β : Type} {r : Reading α} {k : α → Reading β} {first : α → List UInt8}
    {encode : β → List UInt8} (hr : Spells r first)
    (hk : ∀ (a : α) (c next : Cursor) (b : β), c.offset ≤ c.code.size → k a c = (.ok b, next) →
      ∃ rest, encode b = first a ++ rest ∧ c.Spans rest next) : Spells (r >>= k) encode := by
  intro c next b inside run
  obtain ⟨a, mid, run₁, run₂⟩ := ok_of_bind run
  have spans := hr c mid a inside run₁
  obtain ⟨rest, split, spans'⟩ := hk a mid next b spans.inside run₂
  rw [split]
  exact spans.append spans'

theorem taggedOperand : Spells Operand.decodeTagged Assembly.taggedOperand := by
  refine byte.bind fun b c next o inside run => ?_
  obtain ⟨kind, c₁, known, run⟩ := ok_of_bind run
  rw [liftM_run] at known
  obtain ⟨data, c₂, read, run⟩ := ok_of_bind run
  cases run
  have code := OperandKind.eq_code_of_ofByte (congrArg Prod.fst known)
  cases congrArg Prod.snd known
  exact ⟨bytesOfWord data, by rw [code]; rfl, word _ _ _ inside read⟩

theorem namedOperand : Spells NamedOperand.decode Assembly.namedOperand := by
  refine word.bind fun name c next n inside run => ?_
  obtain ⟨o, c₁, read, run⟩ := ok_of_bind run
  cases run
  exact ⟨Assembly.taggedOperand o, rfl, taggedOperand _ _ _ inside read⟩

/-- Several operands, one after the other. -/
theorem collect {α : Type} {r : Reading α} {encode : α → List UInt8} (hr : Spells r encode) :
    ∀ n, Spells (MessageMachine.collect r n) fun xs => xs.val.flatMap encode
  | 0 => by
    intro c next xs inside run
    cases run
    exact Cursor.spans_nil inside
  | n + 1 => by
    refine hr.bind fun x c next xs inside run => ?_
    obtain ⟨others, c₁, read, run⟩ := ok_of_bind run
    cases run
    exact ⟨_, rfl, collect hr n _ _ _ inside read⟩

theorem collectList {α : Type} {r : Reading α} {encode : α → List UInt8} (hr : Spells r encode)
    {n : Nat} {c next : Cursor} {as : List α} (inside : c.offset ≤ c.code.size)
    (run : MessageMachine.collectList r n c = (.ok as, next)) :
    as.length = n ∧ c.Spans (as.flatMap encode) next := by
  rw [MessageMachine.collectList, map_eq_pure_bind] at run
  obtain ⟨⟨as', length⟩, c₁, read, run⟩ := ok_of_bind run
  cases run
  exact ⟨length, collect hr n _ _ _ inside read⟩

end Spells

/-! ## Counts -/

/-- Reads a count that is refused above a limit. -/
def limitedCount (limit : Nat) (refusal : Nat → Fault) : Reading Nat := do
  let count ← Cursor.byte
  if count.toNat ≤ limit then return count.toNat else throw (refusal count.toNat)

theorem positionalCount_eq :
    positionalCount = limitedCount Limits.positional .tooManyPositional := rfl

theorem namedCount_eq : namedCount = limitedCount Limits.named .tooManyNamed := rfl

section

variable {limit : Nat} {refusal : Nat → Fault}

theorem Spells.limitedCount : Spells (limitedCount limit refusal) fun n => [UInt8.ofNat n] := by
  refine byte.bind fun b c next n inside run => ?_
  by_cases fits : b.toNat ≤ limit
  · rw [if_pos fits] at run
    cases run
    exact ⟨[], by simp, Cursor.spans_nil inside⟩
  · rw [if_neg fits] at run
    cases run

/-- A count above the limit is refused right behind its byte. -/
theorem limitedCount_of_lt {c next : Cursor} {count : UInt8} (spans : c.Spans [count] next)
    (above : limit < count.toNat) :
    limitedCount limit refusal c = (.error (refusal count.toNat), next) := by
  refine (bind_of_ok (spans.run (Reads.byte count))).trans ?_
  rw [if_neg (Nat.not_le.mpr above)]
  rfl

end

/-! ## Calls -/

theorem Opcode.commandAt_eq_ok_iff {o : Opcode} {offset : Nat} {command : Command} :
    o.commandAt offset = .ok command ↔ Command.ofCode? o.command = some command := by
  unfold commandAt
  cases Command.ofCode? o.command <;> simp

/-- The byte is an opcode of a call with a valid mode. -/
def Opcode.IsCall (b : UInt8) (place : Option Place) : Prop :=
  Command.ofCode? (Opcode.ofByte b).command = some .call ∧
    assignMode (Opcode.ofByte b).source₁ = .ok place

namespace Assembly

/-- The index of a destination, if there is one. -/
def indexBytes : Option Destination → List UInt8
  | some d => bytesOfWord d.index
  | none => []

/-- The bytes of a call up to the count of its positional operands. -/
def callHead (opcode native : UInt8) (destination : Option Destination) (count : UInt8) :
    List UInt8 :=
  opcode :: native :: (indexBytes destination ++ [count])

/-- The positional operands of a call, and the count of the named ones. -/
def callMiddle (positional : List Operand) (count : UInt8) : List UInt8 :=
  positional.flatMap taggedOperand ++ [count]

end Assembly

namespace Instruction

/-- The native, the destination and the count of positional operands, as they were read. -/
theorem spans_of_decodeCallHead {opcode : Opcode} {c next : Cursor} {native : UInt8}
    {destination : Option Destination} {count : Nat} (inside : c.offset ≤ c.code.size)
    (run : decodeCallHead opcode c = (.ok (native, destination, count), next)) :
    assignMode opcode.source₁ = .ok (destination.map Destination.place) ∧
      c.Spans (native :: (Assembly.indexBytes destination ++ [UInt8.ofNat count])) next := by
  obtain ⟨native', c₁, byte, run⟩ := ok_of_bind run
  obtain ⟨place, c₂, mode, run⟩ := ok_of_bind run
  obtain ⟨destination', c₃, target, run⟩ := ok_of_bind run
  obtain ⟨count', c₄, counted, run⟩ := ok_of_bind run
  cases run
  rw [liftM_run] at mode
  cases congrArg Prod.snd mode
  have spans₁ := Spells.byte c c₁ native inside byte
  have spans₂ : place = destination.map Destination.place ∧
      c₁.Spans (Assembly.indexBytes destination) c₃ := by
    cases place with
    | none =>
      cases target
      exact ⟨rfl, Cursor.spans_nil spans₁.inside⟩
    | some place =>
      obtain ⟨d, c', read, target⟩ := ok_of_bind target
      obtain ⟨index, c'', read, moved⟩ := ok_of_bind read
      cases moved
      cases target
      exact ⟨rfl, Spells.word _ _ _ spans₁.inside read⟩
  rw [positionalCount_eq] at counted
  have spans₃ := Spells.limitedCount _ _ _ spans₂.2.inside counted
  exact ⟨(congrArg Prod.fst mode).trans (congrArg _ spans₂.1),
    spans₁.append (spans₂.2.append spans₃)⟩

theorem reads_decodeIf (destination : Option Destination) :
    Reads (Destination.decodeIf (destination.map Destination.place))
      (Assembly.indexBytes destination) destination := by
  cases destination with
  | none => exact Reads.pure none
  | some d => exact d.reads.map some

theorem reads_decodeCallHead {opcode : Opcode} (native : UInt8) {destination : Option Destination}
    {count : Nat} (valid : assignMode opcode.source₁ = .ok (destination.map Destination.place))
    (fits : count ≤ Limits.positional) :
    Reads (decodeCallHead opcode)
      (native :: (Assembly.indexBytes destination ++ [UInt8.ofNat count]))
      (native, destination, count) := by
  show Reads _ ([native] ++ ([] ++ _)) _
  exact (Reads.byte native).bind ((Reads.lift valid).bind
    ((reads_decodeIf destination).bind ((reads_positionalCount fits).map _)))

/-- A count of positional operands above the limit is refused right behind its byte. -/
theorem decodeCallHead_of_lt {opcode : Opcode} {c next : Cursor} {native count : UInt8}
    {destination : Option Destination}
    (valid : assignMode opcode.source₁ = .ok (destination.map Destination.place))
    (spans : c.Spans (native :: (Assembly.indexBytes destination ++ [count])) next)
    (above : Limits.positional < count.toNat) :
    decodeCallHead opcode c = (.error (.tooManyPositional count.toNat), next) := by
  obtain ⟨c₁, native', spans⟩ := Cursor.spans_append.mp
    (show c.Spans ([native] ++ (Assembly.indexBytes destination ++ [count])) next from spans)
  obtain ⟨c₂, index, last⟩ := Cursor.spans_append.mp spans
  have byte := native'.run (Reads.byte native)
  have mode := liftM_run (assignMode opcode.source₁) c₁
  rw [valid] at mode
  have target := index.run (reads_decodeIf destination)
  have refused : positionalCount c₂ = _ := limitedCount_of_lt last above
  unfold decodeCallHead
  rw [bind_of_ok byte, valid, bind_of_ok mode, bind_of_ok target, bind_of_error refused]

/-- A list of operands is read by its count. -/
theorem reads_collectList {α : Type} {r : Reading α} {encode : α → List UInt8}
    (reads : ∀ a, Reads r (encode a) a) (as : List α) :
    Reads (collectList r as.length) (as.flatMap encode) as := by
  have listed : Reads (collectList r as.length) (as.flatMap encode) (as.map fun a => a) :=
    (Reads.collect rfl fun a (_ : a ∈ as) => reads a).map Subtype.val
  rwa [List.map_id'] at listed

/-- Only the opcode of a call is one that a call is decoded from. -/
theorem command_of_decodeRest {opcode : Opcode} {command : Command} {c next : Cursor}
    {native : UInt8} {destination : Option Destination} {positional : List Operand}
    {named : List NamedOperand}
    (run : decodeRest opcode command c = (.ok (call native destination positional named), next)) :
    command = .call := by
  let other (i : Instruction) : Prop := i ≠ call native destination positional named
  have ends {i : Instruction} (h : other i) : Gives other (pure i : Reading Instruction) := .pure h
  by_contra isOther
  have gives : Gives other (decodeRest opcode command) := by
    cases command with
    | call => exact absurd rfl isOther
    | assignUnary => exact .bind fun _ => .bind fun _ => .bind fun _ => ends nofun
    | assignBinary =>
      exact .bind fun _ => .bind fun _ => .bind fun _ => .bind fun _ => ends nofun
    | goto =>
      refine .bind fun mode => .bind fun _ => ?_
      cases mode with
      | always => exact ends nofun
      | ifTrue | ifFalse => exact .bind fun _ => ends nofun
    | leave =>
      show Gives other (if opcode.handsOver then _ else _)
      split
      · exact ends nofun
      · exact .bind fun _ => ends nofun
    | line => exact .bind fun _ => ends nofun
  exact gives _ _ _ run rfl

/-- **A call is decoded just where one is spelled**: an opcode of a call with a valid mode, and all
bytes of its operands, with both counts within their limits. -/
theorem decode_call_iff {c next : Cursor} {native : UInt8} {destination : Option Destination}
    {positional : List Operand} {named : List NamedOperand} :
    decode c = (.ok (call native destination positional named), next) ↔
      ∃ b, Opcode.IsCall b (destination.map Destination.place) ∧
        positional.length ≤ Limits.positional ∧ named.length ≤ Limits.named ∧
        c.Spans (Assembly.callHead b native destination (.ofNat positional.length) ++
          (Assembly.callMiddle positional (.ofNat named.length) ++
            named.flatMap Assembly.namedOperand)) next := by
  constructor
  · intro run
    obtain ⟨fits, fits'⟩ := encodable_of_decode run
    rw [Action.decode_run] at run
    obtain ⟨b, c₁, byte, run⟩ := ok_of_bind run
    obtain ⟨command, c₂, known, run⟩ := ok_of_bind run
    rw [liftM_run] at known
    cases congrArg Prod.snd known
    cases command_of_decodeRest run
    have opcode := Opcode.commandAt_eq_ok_iff.mp (congrArg Prod.fst known)
    have spans₁ := Cursor.spans_of_byte byte
    have run : decodeCall (.ofByte b) c₁ = _ := run
    rw [decodeCall_eq] at run
    obtain ⟨⟨native', destination', count⟩, c₂, head, run⟩ := ok_of_bind run
    obtain ⟨ps, c₃, operands, run⟩ := ok_of_bind run
    obtain ⟨count', c₄, counted, run⟩ := ok_of_bind run
    obtain ⟨ns, c₅, arguments, run⟩ := ok_of_bind run
    cases run
    rw [namedCount_eq] at counted
    obtain ⟨mode, spans₂⟩ := spans_of_decodeCallHead spans₁.inside head
    obtain ⟨rfl, spans₃⟩ := Spells.taggedOperand.collectList spans₂.inside operands
    have spans₄ := Spells.limitedCount _ _ _ spans₃.inside counted
    obtain ⟨rfl, spans₅⟩ := Spells.namedOperand.collectList spans₄.inside arguments
    exact ⟨b, ⟨opcode, mode⟩, fits, fits',
      (spans₁.append spans₂).append ((spans₃.append spans₄).append spans₅)⟩
  · rintro ⟨b, ⟨opcode, mode⟩, fits, fits', spans⟩
    have known (offset : Nat) : (Opcode.ofByte b).commandAt offset = .ok .call :=
      Opcode.commandAt_eq_ok_iff.mpr opcode
    have counted : Reads namedCount [.ofNat named.length] named.length := reads_namedCount fits'
    have tail : Reads (decodeCall (.ofByte b)) _ (call native destination positional named) :=
      decodeCall_eq (.ofByte b) ▸ (reads_decodeCallHead native mode fits).bind
        ((reads_collectList Operand.reads_tagged positional).bind
          (counted.bind ((reads_collectList NamedOperand.reads named).map _)))
    have whole : Reads (Cursor.byte >>= fun b =>
        liftM ((Opcode.ofByte b).commandAt c.offset) >>= decodeRest (.ofByte b)) _ _ :=
      (Reads.byte b).bind ((Reads.lift (known _)).bind tail)
    rw [Action.decode_run]
    refine Cursor.Spans.run ?_ whole
    simpa [Assembly.callHead, Assembly.callMiddle] using spans

end Instruction

end MessageMachine
