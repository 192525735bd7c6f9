import MessageMachine.Code.Listing
import MessageMachine.Proofs.Code.Layout

/-!
# What an assembly holds

`Assembly.Holds a is` says that the code of `a` is the encoding of `is` and that its branches are
the places of their targets.  Emitting an instruction puts it at the end (`Holds.add`), and writing
an offset at the place of a target changes the target of that goto alone (`Holds.withTarget`).

An assembly that holds instructions is finished to a handler that disassembles into the same
instructions, their targets moved on by the length of the header (`Holds.toHandler`).
-/

namespace MessageMachine

/-- A body that begins with a header is accepted, whatever follows. -/
theorem Handler.ofBody_of_reads {bytes : List UInt8} {header : Header}
    (h : Reads Header.decode bytes header) (id : MessageId) (name : String) (rest : List UInt8) :
    Handler.ofBody id name (bytes ++ rest).toArray =
      .ok { header with id, name, body := (bytes ++ rest).toArray } := by
  have read := h [] rest
  rw [List.nil_append, List.length_nil] at read
  rw [Handler.ofBody, read]

namespace Assembly

/-- The assembly with an instruction at its end. -/
def add (a : Assembly) (i : Instruction) : Assembly :=
  { a with
    code := a.code ++ i.bytes.toArray
    branches := a.branches ++ Instruction.targetPlaces a.offset [i] }

theorem add_of_none {i : Instruction} (h : i.target? = none) (a : Assembly) :
    a.add i = a.emit i.bytes := by
  have places : Instruction.targetPlaces a.offset [i] = [] := Instruction.targetPlaces_of_none h ..
  rw [add, places, List.append_nil]
  rfl

theorem add_of_target {i : Instruction} {t : UInt32} (h : i.target? = some t) (a : Assembly) :
    a.add i = { a.emit i.bytes with branches := a.branches ++ [a.offset + 1] } := by
  have places : Instruction.targetPlaces a.offset [i] = [a.offset + 1] :=
    Instruction.targetPlaces_of_target h ..
  rw [add, places]
  rfl

/-- The instructions that an assembly is made of, with the targets written so far. -/
structure Holds (a : Assembly) (is : List Instruction) : Prop where
  code : a.code = (Instruction.encodeAll is).toArray
  branches : a.branches = Instruction.targetPlaces 0 is

namespace Holds

variable {a : Assembly} {is : List Instruction}

theorem offset (h : a.Holds is) : a.offset = (Instruction.encodeAll is).length := by
  rw [Assembly.offset, h.code, List.size_toArray]

theorem add (h : a.Holds is) (i : Instruction) : (a.add i).Holds (is ++ [i]) where
  code := by simp [Assembly.add, h.code, Instruction.encodeAll]
  branches := by
    rw [Instruction.targetPlaces_append, Nat.zero_add, ← h.offset, ← h.branches]
    rfl

/-- Writing where the target of a goto is leaves every other instruction as it was. -/
theorem withTarget {before after : List Instruction} {i : Instruction} {t : UInt32}
    (h : a.Holds (before ++ i :: after)) (goto : i.target? = some t) (t' : UInt32) :
    { a with code := putWord a.code ((Instruction.encodeAll before).length + 1) t' }.Holds
      (before ++ i.withTarget t' :: after) where
  code := by
    have := putWord_target goto (Instruction.encodeAll before) (Instruction.encodeAll after) t'
    simpa [h.code, Instruction.encodeAll] using this
  branches := by
    have size := i.size_withTarget t'
    rw [h.branches, Instruction.targetPlaces_append, Instruction.targetPlaces_append,
      Instruction.targetPlaces_of_target goto,
      Instruction.targetPlaces_of_target (Instruction.target?_withTarget goto t'), size]

theorem toBytes (h : a.Holds is) :
    a.toBytes =
      (a.header ++ Instruction.encodeAll (is.map (·.moved (.ofNat a.headerLength)))).toArray := by
  have code := foldl_rebase (.ofNat a.headerLength) is []
  rw [List.nil_append, List.nil_append, List.length_nil] at code
  rw [Assembly.toBytes, h.code, h.branches, code, List.append_toArray]

/-- The finished handler declares what the assembly does, and disassembles into its instructions. -/
theorem toHandler (h : a.Holds is) (encodable : ∀ i ∈ is, i.Encodable)
    (fits : a.locals.toNat + a.parameters.length ≤ Limits.locals) (id : MessageId) (name : String) :
    ∃ handler, a.toHandler id name = .ok handler ∧ handler.id = id ∧ handler.name = name ∧
      handler.locals = a.locals.toNat ∧ handler.parameters = a.declared ∧
      handler.body.size = a.headerLength + (Instruction.encodeAll is).length ∧
      handler.disassembly =
        ⟨layout Instruction.size a.headerLength (is.map (·.moved (.ofNat a.headerLength))),
          a.headerLength + (Instruction.encodeAll is).length, none⟩ := by
  generalize hm : is.map (·.moved (.ofNat a.headerLength)) = moved
  have body : a.toBytes = (a.header ++ Instruction.encodeAll moved).toArray := hm ▸ h.toBytes
  have length : (Instruction.encodeAll moved).length = (Instruction.encodeAll is).length :=
    hm ▸ Instruction.length_encodeAll_moved _ is
  have accepted := Handler.ofBody_of_reads (a.reads_header fits) id name
    (Instruction.encodeAll moved)
  have stillEncodable : ∀ i ∈ moved, i.Encodable := by
    rw [← hm]
    intro i hi
    obtain ⟨j, hj, rfl⟩ := List.mem_map.1 hi
    exact (encodable j hj).moved _
  have instructions := Disassembly.ofCursor_encoded stillEncodable a.header
  have start : 2 + 8 * a.declared.length = a.header.length := by
    rw [a.length_header, a.length_declared, headerLength]
  refine ⟨_, (congrArg (Handler.ofBody id name) body).trans accepted, rfl, rfl, rfl, rfl, ?_, ?_⟩
  · rw [List.size_toArray, List.length_append, a.length_header, length]
  · show Disassembly.ofCursor ⟨_, 2 + 8 * a.declared.length⟩ = _
    rw [start, instructions, a.length_header, length]

end Holds

end Assembly

end MessageMachine
