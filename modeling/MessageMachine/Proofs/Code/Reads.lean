import MessageMachine.Code.Assembly
import MessageMachine.Code.Disassembly

/-!
# What is written reads back

`Reads r bytes a` says that the reading `r`, wherever it meets `bytes`, takes exactly these bytes
and gives `a`.  It does not depend on what stands before the bytes or after them.  So readings that
follow one another read encodings that follow one another (`Reads.bind`), and the encoding of an
instruction is gone through in the order in which it is read.

`Instruction.bytes` is the encoding of an instruction.  It reads back unless it is a call with too
many operands (`Instruction.reads`).  The header that the assembler puts before a body reads back
unless it asks for too many locals (`Assembly.reads_header`).
-/

namespace MessageMachine

/-- The reading takes just `bytes` off a cursor that stands before them, and gives `a`. -/
def Reads {α : Type} (r : Reading α) (bytes : List UInt8) (a : α) : Prop :=
  ∀ before after : List UInt8,
    r ⟨(before ++ bytes ++ after).toArray, before.length⟩ =
      (.ok a, ⟨(before ++ bytes ++ after).toArray, before.length + bytes.length⟩)

namespace Reads

variable {α β : Type} {r : Reading α} {bytes more : List UInt8} {a : α}

theorem pure (a : α) : Reads (Pure.pure a) [] a := fun _ _ => rfl

theorem bind {f : α → Reading β} {b : β} (hr : Reads r bytes a) (hf : Reads (f a) more b) :
    Reads (r >>= f) (bytes ++ more) b := by
  intro before after
  have first := hr before (more ++ after)
  have second := hf (before ++ bytes) after
  have run (c : Cursor) : (r >>= f) c = ExceptT.bindCont f (r c).1 (r c).2 := rfl
  simp only [← List.append_assoc] at first
  rw [List.length_append] at second
  rw [run, ← List.append_assoc, first, List.length_append, ← Nat.add_assoc]
  exact second

theorem map (g : α → β) (hr : Reads r bytes a) :
    Reads (r >>= fun x => Pure.pure (g x)) bytes (g a) := by
  have := hr.bind (f := fun x => Pure.pure (g x)) (pure (g a))
  rwa [List.append_nil] at this

/-- A result that is known already is read off no bytes. -/
theorem lift {x : Except Fault α} (h : x = .ok a) : Reads (liftM x) [] a := by
  subst h
  exact pure a

theorem byte (b : UInt8) : Reads Cursor.byte [b] b := by
  intro before after
  rw [Cursor.byte_run]
  simp

theorem word (w : UInt32) : Reads Cursor.word (bytesOfWord w) w := by
  intro before after
  rw [Cursor.word_run]
  simp [bytesOfWord, wordOfBytes_bytes]

/-- A list is read by its count, one element after the other. -/
theorem collect {encode : β → List UInt8} {value : β → α} {xs : List β} {n : Nat}
    (hn : xs.length = n) (h : ∀ x ∈ xs, Reads r (encode x) (value x)) :
    Reads (MessageMachine.collect r n) (xs.flatMap encode) ⟨xs.map value, by simpa using hn⟩ := by
  subst hn
  induction xs with
  | nil => exact pure _
  | cons x xs ih =>
    have rest := ih fun y hy => h y (List.mem_cons_of_mem _ hy)
    exact (h x List.mem_cons_self).bind (rest.map _)

end Reads

/-! ## Operands -/

/-- A count that fits a byte is read as it was written. -/
theorem toNat_ofNat_count {n limit : Nat} (h : n ≤ limit) (fits : limit < 256) :
    (UInt8.ofNat n).toNat = n := by
  rw [UInt8.toNat_ofNat']
  omega

theorem UnaryOp.reads (op : UnaryOp) : Reads UnaryOp.decode [op.code] op :=
  (Reads.byte _).bind (Reads.lift (by simp [UnaryOp.ofByte]))

theorem BinaryOp.reads (op : BinaryOp) : Reads BinaryOp.decode [op.code] op :=
  (Reads.byte _).bind (Reads.lift (by simp [BinaryOp.ofByte]))

namespace Operand

theorem reads (o : Operand) : Reads (decode o.kind) (bytesOfWord o.data) o :=
  (Reads.word _).map _

theorem reads_tagged (o : Operand) : Reads decodeTagged (Assembly.taggedOperand o) o :=
  (Reads.byte _).bind ((Reads.lift (OperandKind.ofByte_code _)).bind o.reads)

end Operand

theorem NamedOperand.reads (n : NamedOperand) : Reads decode (Assembly.namedOperand n) n :=
  (Reads.word _).bind (n.operand.reads_tagged.map _)

namespace Destination

theorem reads (d : Destination) : Reads (decode d.place) (bytesOfWord d.index) d :=
  (Reads.word _).map _

theorem reads_if (d : Option Destination) :
    Reads (decodeIf (d.map place))
      (match d with | some d => bytesOfWord d.index | none => []) d := by
  cases d with
  | none => exact Reads.pure _
  | some d => exact d.reads.map some

end Destination

theorem reads_positionalCount {n : Nat} (h : n ≤ Limits.positional) :
    Reads positionalCount [UInt8.ofNat n] n := by
  have count := toNat_ofNat_count h (by decide)
  refine (Reads.byte (.ofNat n)).bind ?_
  rw [if_pos (by rwa [count]), count]
  exact Reads.pure n

theorem reads_namedCount {n : Nat} (h : n ≤ Limits.named) :
    Reads namedCount [UInt8.ofNat n] n := by
  have count := toNat_ofNat_count h (by decide)
  refine (Reads.byte (.ofNat n)).bind ?_
  rw [if_pos (by rwa [count]), count]
  exact Reads.pure n

/-! ## Instructions -/

namespace Instruction

/-- The bytes that the assembler writes for an instruction. -/
def bytes : Instruction → List UInt8
  | unary op destination source => Assembly.unaryBytes op destination source
  | binary op destination left right => Assembly.binaryBytes op destination left right
  | goto target => Assembly.gotoOpcode .always none :: bytesOfWord target
  | gotoIf wanted target condition =>
    Assembly.gotoOpcode (if wanted then .ifTrue else .ifFalse) (some condition) ::
      (bytesOfWord target ++ bytesOfWord condition.data)
  | call native destination positional named =>
    Assembly.callBytes native destination positional named
  | handOver => [Assembly.opcode .leave 0 0 0]
  | leave value => Assembly.leaveBytes value
  | line number => Assembly.opcode .line 0 0 0 :: bytesOfWord number

/-- A call has operands up to a limit. -/
def Encodable : Instruction → Prop
  | call _ _ positional named =>
    positional.length ≤ Limits.positional ∧ named.length ≤ Limits.named
  | _ => True

instance : DecidablePred Encodable := fun i => by
  unfold Encodable
  split <;> infer_instance

theorem length_bytes_pos (i : Instruction) : 0 < i.bytes.length := by
  cases i <;> simp [bytes, Assembly.unaryBytes, Assembly.binaryBytes, Assembly.callBytes,
    Assembly.leaveBytes]

/-- An instruction reads back when what follows its opcode does. -/
theorem reads_of_rest {command : Command} {destination source₁ source₂ : UInt8}
    {rest : List UInt8} {i : Instruction}
    (h : Reads (decodeRest
      ⟨command.code, destination &&& 1, source₁ &&& 3, source₂ &&& 3⟩ command) rest i) :
    Reads decode (Assembly.opcode command destination source₁ source₂ :: rest) i := by
  have fields := Opcode.ofByte_toByte ⟨command.code, destination, source₁, source₂⟩
  rw [Command.code_cut] at fields
  intro before after
  have known (offset : Nat) : (Opcode.ofByte
      (Assembly.opcode command destination source₁ source₂)).commandAt offset = .ok command := by
    rw [Assembly.opcode, fields]
    simp [Opcode.commandAt]
  have read : Reads (Cursor.byte >>= fun b =>
      liftM ((Opcode.ofByte b).commandAt before.length) >>= decodeRest (.ofByte b))
      ([Assembly.opcode command destination source₁ source₂] ++ ([] ++ rest)) i := by
    refine (Reads.byte _).bind ((Reads.lift (known _)).bind ?_)
    rwa [Assembly.opcode, fields]
  exact read before after

theorem reads_unary (op : UnaryOp) (d : Destination) (s : Operand) :
    Reads decode (unary op d s).bytes (unary op d s) := by
  apply reads_of_rest
  simp only [decodeRest, Opcode.place, Opcode.kind₁, Place.code_cut, Place.ofField_code,
    OperandKind.code_cut, OperandKind.ofField_code]
  show Reads _ ([op.code] ++ (bytesOfWord d.index ++ bytesOfWord s.data)) _
  exact op.reads.bind (d.reads.bind (s.reads.map _))

theorem reads_binary (op : BinaryOp) (d : Destination) (left right : Operand) :
    Reads decode (binary op d left right).bytes (binary op d left right) := by
  apply reads_of_rest
  simp only [decodeRest, Opcode.place, Opcode.kind₁, Opcode.kind₂, Place.code_cut,
    Place.ofField_code, OperandKind.code_cut, OperandKind.ofField_code]
  rw [List.append_assoc]
  show Reads _ ([op.code] ++
    (bytesOfWord d.index ++ (bytesOfWord left.data ++ bytesOfWord right.data))) _
  exact op.reads.bind (d.reads.bind (left.reads.bind (right.reads.map _)))

theorem reads_goto (target : UInt32) : Reads decode (goto target).bytes (goto target) := by
  apply reads_of_rest
  simp only [decodeRest, decodeGoto, GotoMode.code_cut]
  show Reads _ ([] ++ bytesOfWord target) _
  exact (Reads.lift (GotoMode.ofField_code _)).bind ((Reads.word _).map _)

theorem reads_gotoIf (wanted : Bool) (target : UInt32) (condition : Operand) :
    Reads decode (gotoIf wanted target condition).bytes (gotoIf wanted target condition) := by
  apply reads_of_rest
  simp only [decodeRest, decodeGoto, Opcode.kind₂, GotoMode.code_cut, OperandKind.code_cut,
    OperandKind.ofField_code]
  show Reads _ ([] ++ (bytesOfWord target ++ bytesOfWord condition.data)) _
  refine (Reads.lift (GotoMode.ofField_code _)).bind ((Reads.word _).bind ?_)
  cases wanted <;> exact condition.reads.map _

theorem reads_call (native : UInt8) (destination : Option Destination)
    {positional : List Operand} {named : List NamedOperand}
    (h : (call native destination positional named).Encodable) :
    Reads decode (call native destination positional named).bytes
      (call native destination positional named) := by
  apply reads_of_rest
  simp only [decodeRest, decodeCall, assignField_cut]
  have values := Reads.collect (r := Operand.decodeTagged) rfl
    fun o (_ : o ∈ positional) => o.reads_tagged
  have names := Reads.collect (r := NamedOperand.decode) rfl
    fun n (_ : n ∈ named) => n.reads
  simp only [List.map_id_fun', id] at values names
  rw [List.append_assoc]
  show Reads _ ([native] ++ ([] ++ (_ ++ ([UInt8.ofNat positional.length] ++
    (positional.flatMap Assembly.taggedOperand ++ ([UInt8.ofNat named.length] ++
      named.flatMap Assembly.namedOperand)))))) _
  refine (Reads.byte native).bind ((Reads.lift (assignMode_assignField _)).bind ?_)
  refine (Destination.reads_if destination).bind ((reads_positionalCount h.1).bind ?_)
  exact values.bind ((reads_namedCount h.2).bind (names.map _))

theorem reads_handOver : Reads decode handOver.bytes handOver :=
  reads_of_rest (Reads.pure _)

theorem reads_leave (value : Operand) : Reads decode (leave value).bytes (leave value) := by
  apply reads_of_rest
  simp only [decodeRest, Opcode.kind₁, OperandKind.code_cut, OperandKind.ofField_code]
  exact value.reads.map _

theorem reads_line (number : UInt32) : Reads decode (line number).bytes (line number) :=
  reads_of_rest ((Reads.word _).map _)

theorem reads {i : Instruction} (h : i.Encodable) : Reads decode i.bytes i := by
  cases i with
  | unary op d s => exact reads_unary op d s
  | binary op d left right => exact reads_binary op d left right
  | goto target => exact reads_goto target
  | gotoIf wanted target condition => exact reads_gotoIf wanted target condition
  | call native d positional named => exact reads_call native d h
  | handOver => exact reads_handOver
  | leave value => exact reads_leave value
  | line number => exact reads_line number

end Instruction

/-! ## Headers -/

theorem Parameter.reads (id : ParameterId) (c : UInt32) :
    Reads decode (bytesOfWord id.number ++ bytesOfWord c) ⟨id, .ofPacked c⟩ :=
  (Reads.word _).bind ((Reads.word _).map _)

namespace Assembly

/-- The parameters of the finished body, with their defaults unpacked. -/
def declared (a : Assembly) : List Parameter :=
  a.parameters.map fun (id, default) => ⟨id, .ofPacked default⟩

@[simp] theorem length_declared (a : Assembly) : a.declared.length = a.parameters.length :=
  List.length_map _

theorem length_header (a : Assembly) : a.header.length = a.headerLength := by
  have table : ∀ l : List (ParameterId × UInt32), (l.flatMap fun (id, default) =>
      bytesOfWord id.number ++ bytesOfWord default).length = 8 * l.length := by
    intro l
    induction l with
    | nil => rfl
    | cons p l ih =>
      rw [List.flatMap_cons, List.length_append, ih, List.length_cons, Nat.mul_add_one,
        Nat.add_comm]
      rfl
  rw [header, List.length_cons, List.length_cons, table, headerLength]
  omega

/-- The header reads back, since a count of parameters that fit a frame also fits a byte. -/
theorem reads_header (a : Assembly)
    (h : a.locals.toNat + a.parameters.length ≤ Limits.locals) :
    Reads Header.decode a.header ⟨a.locals.toNat, a.declared, by simpa using h⟩ := by
  have count := toNat_ofNat_count (n := a.parameters.length) (Nat.le_of_add_left_le h) (by decide)
  have table := Reads.collect (r := Parameter.decode) count.symm
    fun p (_ : p ∈ a.parameters) => Parameter.reads p.1 p.2
  show Reads _ ([a.locals] ++ ([UInt8.ofNat a.parameters.length] ++ _)) _
  refine (Reads.byte _).bind ((Reads.byte _).bind ?_)
  rw [dif_pos (by rwa [count])]
  exact table.map _

end Assembly

end MessageMachine
