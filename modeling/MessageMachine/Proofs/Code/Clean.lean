import MessageMachine.Code.Listing
import MessageMachine.Proofs.Code.Layout

/-!
# Clean code

A body is *clean* when three things can be seen in its disassembly: it reads to its end, every goto
leads to an instruction that was read, and frames of the handler have every local that is named
(`Handler.IsClean`).  It is *closed* when besides that its last instruction does not go on.  Both
can be decided by looking.

What makes these checks of use is that reading from any instruction on finds the same instructions
again (`Disassembly.suffix_of_mem`).  So a place that is reached along instructions or by a goto is
a place from which the whole rest can be read (`Handler.Reaches`).
-/

namespace MessageMachine

/-! ## What an instruction names -/

/-- A frame of `size` locals has the operand, if it is a local at all. -/
def Operand.Fits (size : Nat) (o : Operand) : Prop := o.kind = .localVar → o.data.toNat < size

instance (size : Nat) (o : Operand) : Decidable (o.Fits size) :=
  inferInstanceAs (Decidable (_ → _))

namespace Instruction

/-- The operands of an instruction, its destination included. -/
def operands : Instruction → List Operand
  | unary _ destination source => [destination.operand, source]
  | binary _ destination left right => [destination.operand, left, right]
  | gotoIf _ _ condition => [condition]
  | call _ destination positional named =>
    (destination.map Destination.operand).toList ++ positional ++ named.map NamedOperand.operand
  | leave value => [value]
  | goto _ | handOver | line _ => []

/-- A frame of `size` locals has all locals that the instruction names. -/
def Fits (size : Nat) (i : Instruction) : Prop := ∀ o ∈ i.operands, o.Fits size

instance (size : Nat) (i : Instruction) : Decidable (i.Fits size) :=
  inferInstanceAs (Decidable (∀ o ∈ i.operands, o.Fits size))

/-- Nothing behind the instruction is executed next. -/
def isFinal : Instruction → Bool
  | goto _ | handOver | leave _ => true
  | _ => false

end Instruction

/-! ## Reading on from an instruction -/

/-- Reading from an instruction that was found gives the rest of the reading. -/
theorem Disassembly.suffix_of_mem {c : Cursor} {offset : Nat} {i : Instruction}
    (h : (offset, i) ∈ (ofCursor c).instructions) :
    c.offset ≤ offset ∧ offset < c.code.size ∧
      (ofCursor ⟨c.code, offset⟩).instructions <:+ (ofCursor c).instructions ∧
      (ofCursor ⟨c.code, offset⟩).fault = (ofCursor c).fault := by
  induction n : c.code.size - c.offset using Nat.strongRecOn generalizing c with
  | _ n ih =>
    cases ended : c.atEnd with
    | true =>
      rw [ofCursor_of_atEnd ended] at h
      cases h
    | false =>
      have more : ¬ c.atEnd := by rw [ended]; exact Bool.false_ne_true
      have inside : c.offset < c.code.size := by simpa [Cursor.atEnd] using more
      generalize decoded : Instruction.decode c = outcome
      obtain ⟨result, d⟩ := outcome
      cases result with
      | error f =>
        rw [ofCursor_of_error more decoded] at h
        cases h
      | ok j =>
        obtain ⟨code, advance⟩ := Instruction.decode_advances decoded
        have size : d.code.size = c.code.size := by rw [code]
        have unfolded := ofCursor_of_decode more decoded
        rw [unfolded] at h
        rcases List.mem_cons.mp h with first | later
        · cases first
          exact ⟨Nat.le_refl _, inside, List.suffix_rfl, rfl⟩
        · obtain ⟨le, lt, suffix, fault⟩ := ih _ (by omega) later rfl
          rw [code] at lt suffix fault
          rw [unfolded]
          exact ⟨by omega, lt, suffix.trans (List.suffix_cons _ _), fault⟩

namespace Handler

/-- The body reads to its end, its gotos lead to instructions, and it names locals of
its frame only. -/
structure IsClean (h : Handler) : Prop where
  readable : h.disassembly.fault = none
  targets : ∀ p ∈ h.disassembly.instructions, ∀ t ∈ p.2.target?,
    t.toNat ∈ h.disassembly.instructions.map Prod.fst
  locals : ∀ p ∈ h.disassembly.instructions, p.2.Fits h.frameSize

instance (h : Handler) : Decidable h.IsClean :=
  -- without this, all words may be tried for the target
  haveI (p : Nat × Instruction) : Decidable (∀ t ∈ p.2.target?,
      t.toNat ∈ h.disassembly.instructions.map Prod.fst) := Option.decidableForallMem _
  decidable_of_iff
    (h.disassembly.fault = none ∧
      (∀ p ∈ h.disassembly.instructions, ∀ t ∈ p.2.target?,
        t.toNat ∈ h.disassembly.instructions.map Prod.fst) ∧
      ∀ p ∈ h.disassembly.instructions, p.2.Fits h.frameSize)
    ⟨fun ⟨readable, targets, locals⟩ => ⟨readable, targets, locals⟩,
      fun c => ⟨c.readable, c.targets, c.locals⟩⟩

/-- The last instruction does not go on. -/
def isClosed (h : Handler) : Bool := h.disassembly.instructions.getLast?.any fun p => p.2.isFinal

/-- The body can be read from `c` to its end, and if it ends there, it is not closed. -/
structure Reaches (h : Handler) (c : Cursor) : Prop where
  code : c.code = h.body
  fault : (Disassembly.ofCursor c).fault = none
  suffix : (Disassembly.ofCursor c).instructions <:+ h.disassembly.instructions
  ending : c.atEnd = true → h.isClosed = false

variable {h : Handler} {c : Cursor}

theorem reaches_start (readable : h.disassembly.fault = none) :
    h.Reaches ⟨h.body, h.codeStart⟩ := by
  refine ⟨rfl, readable, List.suffix_rfl, fun ended => ?_⟩
  rw [isClosed, disassembly, Disassembly.ofCode, Disassembly.ofCursor_of_atEnd ended]
  rfl

/-- Every instruction of the body is reached. -/
theorem reaches_of_mem (readable : h.disassembly.fault = none) {offset : Nat}
    (mem : offset ∈ h.disassembly.instructions.map Prod.fst) :
    h.codeStart ≤ offset ∧ offset < h.body.size ∧ h.Reaches ⟨h.body, offset⟩ := by
  obtain ⟨⟨offset, i⟩, found, rfl⟩ := List.mem_map.mp mem
  obtain ⟨le, lt, suffix, fault⟩ := Disassembly.suffix_of_mem found
  refine ⟨le, lt, rfl, fault.trans readable, suffix, fun ended => ?_⟩
  exact absurd (of_decide_eq_true ended) (Nat.not_le.mpr lt)

/-- From a place that is reached an instruction can be read, unless the body ends there.  Behind the
instruction is the next such place, if it goes on. -/
theorem Reaches.exists_decode (reached : h.Reaches c) (more : c.atEnd = false) :
    ∃ i next, Instruction.decode c = (.ok i, next) ∧ (c.offset, i) ∈ h.disassembly.instructions ∧
      next.code = h.body ∧ (i.isFinal = false → h.Reaches next) := by
  have more : ¬ c.atEnd := by rw [more]; exact Bool.false_ne_true
  have suffix := reached.suffix
  have readable := reached.fault
  generalize decoded : Instruction.decode c = outcome
  match outcome with
  | (.error f, next) =>
    rw [Disassembly.ofCursor_of_error more decoded] at readable
    cases readable
  | (.ok i, next) =>
    have unfolded := Disassembly.ofCursor_of_decode more decoded
    have code := (Instruction.decode_advances decoded).1.trans reached.code
    rw [unfolded] at suffix readable
    refine ⟨i, next, rfl, suffix.subset List.mem_cons_self, code, fun goesOn => ?_⟩
    refine ⟨code, readable, (List.suffix_cons _ _).trans suffix, fun ended => ?_⟩
    -- then the instruction is the last one
    obtain ⟨before, whole⟩ := suffix
    rw [Disassembly.ofCursor_of_atEnd ended] at whole
    rw [isClosed, ← whole, List.getLast?_append]
    exact goesOn

end Handler

end MessageMachine
