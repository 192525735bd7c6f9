import Mathlib.Data.List.TakeDrop
import MessageMachine.Proofs.Fallible
import MessageMachine.Proofs.Code.RoundTrip

/-!
# Counts in the code

The assembler writes three counts: that of the parameters of a body, and those of the positional and
the named operands of a call.  Each has a single byte, and a longer list is written in full behind a
count that was cut.  What reads the code knows the byte alone, and it is the byte that is held
against the limits.

So the limits are enforced as long as the lists are shorter than 256, and this module says
what holds beyond.  A finished body declares as many parameters as the byte says, and counts
the rest of the table as code (`Assembly.toHandler_declares`).  A call is refused when the
byte for one of its counts is above the limit, and it reads as itself only when both lists
keep within the limits; any other call is taken for another one, or stops at an operand that
is taken for a count (`Instruction.recognized_call_iff`).
-/

namespace MessageMachine

/-! ## What a reading meets -/

/-- Wherever the reading meets `bytes`, its outcome satisfies `Q`. -/
def Meets {α : Type} (r : Reading α) (bytes : List UInt8) (Q : Except Fault α → Prop) : Prop :=
  ∀ before after : List UInt8, Q (r ⟨(before ++ bytes ++ after).toArray, before.length⟩).1

/-- The reading fails with `f` wherever it meets `bytes`. -/
abbrev Refuses {α : Type} (r : Reading α) (bytes : List UInt8) (f : Fault) : Prop :=
  Meets r bytes (· = .error f)

section

variable {α β : Type} {r : Reading α} {bytes more : List UInt8} {a : α} {f : Fault}

theorem Meets.append {Q : Except Fault α → Prop} (h : Meets r bytes Q) (more : List UInt8) :
    Meets r (bytes ++ more) Q := by
  intro before after
  have first := h before (more ++ after)
  simp only [← List.append_assoc] at first
  rwa [← List.append_assoc]

/-- What follows a reading meets what stands behind its bytes. -/
theorem Reads.bind_meets {Q : Except Fault β → Prop} {k : α → Reading β} (h : Reads r bytes a)
    (next : Meets (k a) more Q) : Meets (r >>= k) (bytes ++ more) Q := by
  intro before after
  have first := h before (more ++ after)
  have second := next (before ++ bytes) after
  simp only [← List.append_assoc] at first
  rw [List.length_append] at second
  rwa [← List.append_assoc, bind_of_ok first]

theorem Refuses.throw (f : Fault) (bytes : List UInt8) :
    Refuses (MonadExcept.throw f : Reading α) bytes f := fun _ _ => rfl

/-- A refusal is final. -/
theorem Refuses.bind (h : Refuses r bytes f) (k : α → Reading β) : Refuses (r >>= k) bytes f := by
  intro before after
  exact congrArg Prod.fst (bind_of_error (Prod.ext (h before after) rfl))

end

/-- Cutting a number before it is written as a byte makes no difference. -/
theorem ofNat_cut (n : Nat) : UInt8.ofNat (n % 256) = UInt8.ofNat n := UInt8.ofNat_mod_size

theorem reads_positionalCount_cut {n : Nat} (h : n % 256 ≤ Limits.positional) :
    Reads positionalCount [UInt8.ofNat n] (n % 256) :=
  ofNat_cut n ▸ reads_positionalCount h

theorem refuses_positionalCount {n : Nat} (h : Limits.positional < n % 256) :
    Refuses positionalCount [UInt8.ofNat n] (.tooManyPositional (n % 256)) := by
  refine (Reads.byte (.ofNat n)).bind_meets ?_
  rw [UInt8.toNat_ofNat', if_neg (Nat.not_le.mpr h)]
  exact Refuses.throw _ []

theorem refuses_namedCount {n : Nat} (h : Limits.named < n % 256) :
    Refuses namedCount [UInt8.ofNat n] (.tooManyNamed (n % 256)) := by
  refine (Reads.byte (.ofNat n)).bind_meets ?_
  rw [UInt8.toNat_ofNat', if_neg (Nat.not_le.mpr h)]
  exact Refuses.throw _ []

/-! ## Declared parameters -/

/-- Counts that do not fit a frame are refused, whatever follows them. -/
theorem Header.refuses_counts {l p : UInt8} (exceeds : Limits.locals < l.toNat + p.toNat)
    (table : List UInt8) :
    Refuses Header.decode (l :: p :: table) (.tooManyLocals (l.toNat + p.toNat)) := by
  refine (Reads.byte l).bind_meets ((Reads.byte p).bind_meets ?_)
  rw [dif_neg (Nat.not_le.mpr exceeds)]
  exact Refuses.throw _ table

namespace Assembly

variable (a : Assembly)

/-- The assembly with as many of its parameters as the byte for their count says. -/
def seen : Assembly := { a with parameters := a.parameters.take (a.parameters.length % 256) }

theorem length_parameters_seen : a.seen.parameters.length = a.parameters.length % 256 := by
  rw [seen, List.length_take, Nat.min_eq_left (Nat.mod_le _ _)]

theorem declared_seen : a.seen.declared = a.declared.take (a.declared.length % 256) := by
  rw [length_declared]
  exact List.map_take

/-- The header begins as it would with the parameters that are seen. -/
theorem header_eq :
    a.header = a.seen.header ++ (a.parameters.drop (a.parameters.length % 256)).flatMap
      fun (id, default) => bytesOfWord id.number ++ bytesOfWord default := by
  rw [header, header, length_parameters_seen, ofNat_cut, List.cons_append, List.cons_append, seen,
    ← List.flatMap_append, List.take_append_drop]

/-- The finished body goes on behind the header. -/
theorem exists_toBytes_eq {front table : List UInt8} (h : a.header = front ++ table) :
    ∃ rest, a.toBytes = (front ++ rest).toArray := by
  refine ⟨table ++ (a.branches.foldl (rebase (.ofNat a.headerLength)) a.code).toList, ?_⟩
  simp [toBytes, h]

/-- A body whose locals fit, by the byte for the count of parameters, is accepted. -/
theorem toHandler_of_fits (fits : a.locals.toNat + a.seen.parameters.length ≤ Limits.locals)
    (id : MessageId) (name : String) :
    a.toHandler id name = .ok {
      locals := a.locals.toNat
      parameters := a.seen.declared
      frameSize_le := by simpa using fits
      id, name, body := a.toBytes } := by
  obtain ⟨rest, body⟩ := a.exists_toBytes_eq a.header_eq
  rw [toHandler, body]
  exact Handler.ofBody_of_reads (a.seen.reads_header fits) id name rest

/-- A header whose locals do not fit, by the byte for the count of parameters, is refused. -/
theorem refuses_header (exceeds : Limits.locals < a.locals.toNat + a.parameters.length % 256) :
    Refuses Header.decode a.header
      (.tooManyLocals (a.locals.toNat + a.parameters.length % 256)) := by
  have count : (UInt8.ofNat a.parameters.length).toNat = a.parameters.length % 256 :=
    UInt8.toNat_ofNat'
  rw [← count] at exceeds ⊢
  exact Header.refuses_counts exceeds _

/-- A body whose locals do not fit, by the byte for the count of parameters, is rejected. -/
theorem toHandler_of_exceeds
    (exceeds : Limits.locals < a.locals.toNat + a.parameters.length % 256)
    (id : MessageId) (name : String) :
    a.toHandler id name =
      .error (.tooManyLocals (a.locals.toNat + a.parameters.length % 256)) := by
  obtain ⟨rest, body⟩ := a.exists_toBytes_eq (List.append_nil a.header).symm
  have refused := a.refuses_header exceeds [] rest
  rw [List.nil_append, List.length_nil] at refused
  rw [toHandler, body, Handler.ofBody, refused]

/-- **A finished body declares as many parameters as the byte for their count says.**  It is
accepted just if that many fit a frame together with the plain locals.  Then the handler has the
locals and the first parameters of the assembly, and its code begins behind their entries in the
table.  These are all the parameters, and the code begins behind the header, just if there are
fewer than 256.

So with fewer than 256 parameters nothing is ever declared wrong, and a body that asks for too many
locals is rejected. -/
theorem toHandler_declares (id : MessageId) (name : String) :
    match a.toHandler id name with
    | .ok h =>
      a.locals.toNat + a.declared.length % 256 ≤ Limits.locals ∧
        h.id = id ∧ h.name = name ∧ h.body = a.toBytes ∧ h.locals = a.locals.toNat ∧
        h.parameters = a.declared.take (a.declared.length % 256) ∧
        h.codeStart = 2 + 8 * (a.declared.length % 256) ∧
        (h.parameters = a.declared ∧ h.codeStart = a.header.length ↔ a.declared.length < 256)
    | .error f =>
      Limits.locals < a.locals.toNat + a.declared.length % 256 ∧
        f = .tooManyLocals (a.locals.toNat + a.declared.length % 256) := by
  rw [length_declared]
  by_cases fits : a.locals.toNat + a.parameters.length % 256 ≤ Limits.locals
  · have start : 2 + 8 * a.seen.declared.length = 2 + 8 * (a.parameters.length % 256) := by
      rw [length_declared, length_parameters_seen]
    have declared : a.seen.declared = a.declared.take (a.parameters.length % 256) := by
      rw [declared_seen, length_declared]
    have all : a.seen.declared = a.declared ∧
        2 + 8 * a.seen.declared.length = a.header.length ↔ a.parameters.length < 256 := by
      rw [start, length_header, headerLength, declared, List.take_eq_self_iff, length_declared]
      omega
    rw [a.toHandler_of_fits (by rwa [length_parameters_seen])]
    exact ⟨fits, rfl, rfl, rfl, rfl, declared, start, all⟩
  · rw [a.toHandler_of_exceeds (Nat.not_le.mp fits)]
    exact ⟨Nat.not_le.mp fits, rfl⟩

/-- A body that declares 256 parameters asks for far too many locals.  It is accepted, without any
parameters, and its code begins at the table. -/
theorem declares_none_of_256 :
    let a : Assembly := { parameters := (List.range 256).map fun i => (⟨.ofNat i⟩, 0) }
    ∃ h, a.toHandler ⟨1⟩ "Built" = .ok h ∧ h.parameters ≠ a.declared ∧
      h.codeStart ≠ 2 + 8 * a.declared.length ∧
      Limits.locals < h.locals + a.declared.length := by
  intro a
  refine ⟨_, a.toHandler_of_fits (by decide +kernel) _ _, ?_, ?_, ?_⟩ <;> decide +kernel

end Assembly

/-! ## Operands of calls -/

namespace Fault

/-- Does the fault say that a call has too many operands? -/
def refusesCount : Fault → Bool
  | tooManyPositional _ | tooManyNamed _ => true
  | _ => false

end Fault

theorem le_of_positionalCount {c c' : Cursor} {n : Nat} (h : positionalCount c = (.ok n, c')) :
    n ≤ Limits.positional := by
  obtain ⟨b, c₁, -, h⟩ := ok_of_bind h
  split at h
  · cases h
    assumption
  · cases h

theorem le_of_namedCount {c c' : Cursor} {n : Nat} (h : namedCount c = (.ok n, c')) :
    n ≤ Limits.named := by
  obtain ⟨b, c₁, -, h⟩ := ok_of_bind h
  split at h
  · cases h
    assumption
  · cases h

theorem reads_namedCount_byte {b : UInt8} (h : b.toNat ≤ Limits.named) :
    Reads namedCount [b] b.toNat := by
  refine (Reads.byte b).bind ?_
  rw [if_pos h]
  exact Reads.pure _

/-- A reading that never complains about a count. -/
abbrev Uncounted {α : Type} (r : Reading α) : Prop :=
  Within (fun _ _ => True) (fun f => f.refusesCount = false) r

namespace Uncounted

instance : Std.Refl fun _ _ : Cursor => True := ⟨fun _ => trivial⟩

instance : IsTrans Cursor fun _ _ => True := ⟨fun _ _ _ _ _ => trivial⟩

theorem byte : Uncounted Cursor.byte := by
  intro c
  rw [Cursor.byte_run]
  split
  · exact ⟨trivial, fun _ h => by cases h⟩
  · exact ⟨trivial, fun _ h => by cases h; rfl⟩

theorem word : Uncounted Cursor.word := by
  intro c
  rw [Cursor.word_run]
  split
  · exact ⟨trivial, fun _ h => by cases h⟩
  · exact ⟨trivial, fun _ h => by cases h; rfl⟩

theorem operandKind (b : UInt8) : Uncounted (liftM (OperandKind.ofByte b)) := by
  refine Within.lift fun f h => ?_
  unfold OperandKind.ofByte at h
  split at h
  · cases h
  · cases h
    rfl

theorem taggedOperand : Uncounted Operand.decodeTagged :=
  byte.bind fun b => (operandKind b).bind fun _ => word.bind fun _ => .pure _

theorem namedOperand : Uncounted NamedOperand.decode :=
  word.bind fun _ => taggedOperand.bind fun _ => .pure _

end Uncounted

/-- The kind of an operand is small enough for a count. -/
theorem OperandKind.code_le (k : OperandKind) : k.code.toNat ≤ Limits.named := by
  cases k <;> decide

namespace Instruction

theorem gives_encodable_decodeCall (opcode : Opcode) : Gives Encodable (decodeCall opcode) := by
  intro c i c' run
  obtain ⟨native, _, -, run⟩ := ok_of_bind run
  obtain ⟨place, _, -, run⟩ := ok_of_bind run
  obtain ⟨destination, _, -, run⟩ := ok_of_bind run
  obtain ⟨count, _, counted, run⟩ := ok_of_bind run
  obtain ⟨⟨positional, length⟩, _, -, run⟩ := ok_of_bind run
  obtain ⟨count', _, counted', run⟩ := ok_of_bind run
  obtain ⟨⟨named, length'⟩, _, -, run⟩ := ok_of_bind run
  cases run
  subst length length'
  exact ⟨le_of_positionalCount counted, le_of_namedCount counted'⟩

theorem gives_encodable_decodeRest (opcode : Opcode) (command : Command) :
    Gives Encodable (decodeRest opcode command) := by
  cases command with
  | assignUnary => exact .bind fun _ => .bind fun _ => .bind fun _ => .pure trivial
  | assignBinary =>
    exact .bind fun _ => .bind fun _ => .bind fun _ => .bind fun _ => .pure trivial
  | goto =>
    refine .bind fun mode => .bind fun _ => ?_
    cases mode with
    | always => exact .pure trivial
    | ifTrue | ifFalse => exact .bind fun _ => .pure trivial
  | call => exact gives_encodable_decodeCall opcode
  | leave =>
    show Gives Encodable (if opcode.handsOver then _ else _)
    split
    · exact .pure trivial
    · exact .bind fun _ => .pure trivial
  | line => exact .bind fun _ => .pure trivial

/-- A call that was read has operands within the limits. -/
theorem encodable_of_decode {c c' : Cursor} {i : Instruction} (h : decode c = (.ok i, c')) :
    i.Encodable := by
  obtain ⟨b, c₁, -, h⟩ := ok_of_bind (a := Cursor.byte) (k := fun b =>
    liftM ((Opcode.ofByte b).commandAt c.offset) >>= decodeRest (.ofByte b)) h
  obtain ⟨command, c₂, -, h⟩ := ok_of_bind h
  exact gives_encodable_decodeRest _ command _ _ _ h

/-- Reads the operands of a call, behind its head. -/
def decodeOperands (native : UInt8) (destination : Option Destination) : Reading Instruction := do
  let positional ← collect Operand.decodeTagged (← positionalCount)
  let named ← collect NamedOperand.decode (← namedCount)
  return .call native destination positional named

/-- What follows an opcode is met when an instruction is read. -/
theorem meets_of_rest {command : Command} {destination source₁ source₂ : UInt8} {rest : List UInt8}
    {Q : Except Fault Instruction → Prop}
    (h : Meets (decodeRest
      ⟨command.code, destination &&& 1, source₁ &&& 3, source₂ &&& 3⟩ command) rest Q) :
    Meets decode (Assembly.opcode command destination source₁ source₂ :: rest) Q := by
  have fields := Opcode.ofByte_toByte ⟨command.code, destination, source₁, source₂⟩
  rw [Command.code_cut] at fields
  intro before after
  have known : (Opcode.ofByte
      (Assembly.opcode command destination source₁ source₂)).commandAt before.length =
        .ok command := by
    rw [Assembly.opcode, fields]
    simp [Opcode.commandAt]
  have read : Meets (Cursor.byte >>= fun b =>
      liftM ((Opcode.ofByte b).commandAt before.length) >>= decodeRest (.ofByte b))
      ([Assembly.opcode command destination source₁ source₂] ++ ([] ++ rest)) Q := by
    refine (Reads.byte _).bind_meets ((Reads.lift known).bind_meets ?_)
    rwa [Assembly.opcode, fields]
  exact read before after

section Call

variable (native : UInt8) (destination : Option Destination) (positional : List Operand)
  (named : List NamedOperand)

/-- The bytes of a call are read as its head, and then its operands are read. -/
theorem meets_call {Q : Except Fault Instruction → Prop}
    (h : Meets (decodeOperands native destination)
      (UInt8.ofNat positional.length :: (positional.flatMap Assembly.taggedOperand ++
        UInt8.ofNat named.length :: named.flatMap Assembly.namedOperand)) Q) :
    Meets decode (call native destination positional named).bytes Q := by
  apply meets_of_rest
  simp only [decodeRest, decodeCall, assignField_cut]
  rw [List.append_assoc, List.cons_append]
  show Meets _ ([native] ++ ([] ++ (_ ++ _))) _
  exact (Reads.byte native).bind_meets ((Reads.lift (assignMode_assignField _)).bind_meets
    ((Destination.reads_if destination).bind_meets h))

theorem refuses_call_positional (h : Limits.positional < positional.length % 256) :
    Refuses decode (call native destination positional named).bytes
      (.tooManyPositional (positional.length % 256)) :=
  meets_call native destination positional named (((refuses_positionalCount h).bind _).append _)

theorem refuses_call_named (fits : positional.length ≤ Limits.positional)
    (h : Limits.named < named.length % 256) :
    Refuses decode (call native destination positional named).bytes
      (.tooManyNamed (named.length % 256)) := by
  have values := Reads.collect (r := Operand.decodeTagged) rfl
    fun o (_ : o ∈ positional) => o.reads_tagged
  refine meets_call native destination positional named ?_
  exact (reads_positionalCount fits).bind_meets (values.bind_meets
    (((refuses_namedCount h).bind _).append _))

/-- The bytes of a call begin with those of the call with as many named operands as
their count says. -/
theorem bytes_call_cut :
    ∃ rest, (call native destination positional named).bytes =
      (call native destination positional (named.take (named.length % 256))).bytes ++ rest := by
  have count : (named.take (named.length % 256)).length = named.length % 256 := by
    rw [List.length_take, Nat.min_eq_left (Nat.mod_le _ _)]
  refine ⟨(named.drop (named.length % 256)).flatMap Assembly.namedOperand, ?_⟩
  have split := congrArg (List.flatMap Assembly.namedOperand)
    (List.take_append_drop (named.length % 256) named)
  rw [List.flatMap_append] at split
  simp only [bytes, Assembly.callBytes, count, ofNat_cut, ← split, List.append_assoc,
    List.cons_append]

/-- **A call whose named operands are cut** is read as the call with the first of them. -/
theorem reads_call_cut (fits : positional.length ≤ Limits.positional)
    (h : named.length % 256 ≤ Limits.named) (before after : List UInt8) :
    ∃ stop, decode ⟨(before ++ (call native destination positional named).bytes ++ after).toArray,
        before.length⟩ =
      (.ok (call native destination positional (named.take (named.length % 256))), stop) := by
  obtain ⟨rest, split⟩ := bytes_call_cut native destination positional named
  have encodable : (call native destination positional
      (named.take (named.length % 256))).Encodable :=
    ⟨fits, by rwa [List.length_take, Nat.min_eq_left (Nat.mod_le _ _)]⟩
  have reads := reads_call native destination encodable before (rest ++ after)
  rw [← List.append_assoc, List.append_assoc before, ← split] at reads
  exact ⟨_, reads⟩

/-- **A call whose positional operands are cut** is never refused for a count.  The first operand
that is not read is taken for the count of the named ones, and its kind is small enough for that. -/
theorem uncounted_call_cut (long : 256 ≤ positional.length)
    (h : positional.length % 256 ≤ Limits.positional) :
    Meets decode (call native destination positional named).bytes
      fun x => ∀ f, x = .error f → f.refusesCount = false := by
  have count : (positional.take (positional.length % 256)).length = positional.length % 256 := by
    rw [List.length_take, Nat.min_eq_left (Nat.mod_le _ _)]
  have values := Reads.collect (r := Operand.decodeTagged) count
    fun o (_ : o ∈ positional.take (positional.length % 256)) => o.reads_tagged
  obtain ⟨o, os, behind⟩ : ∃ o os, positional.drop (positional.length % 256) = o :: os := by
    refine List.exists_cons_of_ne_nil fun none => ?_
    have := List.drop_eq_nil_iff.mp none
    omega
  have split := congrArg (List.flatMap Assembly.taggedOperand)
    (List.take_append_drop (positional.length % 256) positional)
  rw [List.flatMap_append, behind, List.flatMap_cons] at split
  refine meets_call native destination positional named ?_
  rw [← split, List.append_assoc]
  refine (reads_positionalCount_cut h).bind_meets (values.bind_meets ?_)
  refine (reads_namedCount_byte o.kind.code_le).bind_meets fun before after f => ?_
  exact ((Uncounted.namedOperand.collect _).bind fun _ => .pure _) _ |>.2 f

end Call

/-- At this place the call is read as itself, up to its end, or it is refused for one
of its counts. -/
def Recognized (i : Instruction) (c : Cursor) : Prop :=
  decode c = (.ok i, { c with offset := c.offset + i.bytes.length }) ∨
    ∃ f stop, decode c = (.error f, stop) ∧ f.refusesCount = true

/-- **A call is recognized** just if the byte for its positional operands is above the limit, or
they keep within it and the named operands keep within theirs or have a byte above it. -/
theorem recognized_call_iff (native : UInt8) (destination : Option Destination)
    (positional : List Operand) (named : List NamedOperand) (before after : List UInt8) :
    (call native destination positional named).Recognized
        ⟨(before ++ (call native destination positional named).bytes ++ after).toArray,
          before.length⟩ ↔
      Limits.positional < positional.length % 256 ∨
        positional.length ≤ Limits.positional ∧
          (named.length ≤ Limits.named ∨ Limits.named < named.length % 256) := by
  constructor
  · rintro (read | ⟨f, stop, refused, counts⟩)
    · obtain ⟨fits, fits'⟩ := encodable_of_decode read
      exact .inr ⟨fits, .inl fits'⟩
    · by_contra others
      rw [not_or, not_and, not_or, Nat.not_lt, Nat.not_lt] at others
      obtain ⟨short, cut⟩ := others
      by_cases fits : positional.length ≤ Limits.positional
      · obtain ⟨stop', read⟩ := reads_call_cut native destination positional named fits
          (cut fits).2 before after
        rw [read] at refused
        cases refused
      · have long : 256 ≤ positional.length := by
          by_contra fewer
          rw [Nat.mod_eq_of_lt (Nat.not_le.mp fewer)] at short
          exact fits short
        have uncounted := uncounted_call_cut native destination positional named long short
          before after f (congrArg Prod.fst refused)
        rw [uncounted] at counts
        cases counts
  · rintro (long | ⟨fits, fits' | long⟩)
    · have refused := refuses_call_positional native destination positional named long before after
      exact .inr ⟨_, _, Prod.ext refused rfl, rfl⟩
    · exact .inl (reads_call native destination ⟨fits, fits'⟩ before after)
    · have refused := refuses_call_named native destination positional named fits long before after
      exact .inr ⟨_, _, Prod.ext refused rfl, rfl⟩

end Instruction

end MessageMachine
