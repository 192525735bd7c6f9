import MessageMachine.Proofs.Code.Reads

/-!
# Instructions one behind the other

`layout size start xs` gives each of `xs` the place where it begins when they are laid out from
`start` on, each taking as much room as `size` says.  The encodings of instructions, laid end to
end, are disassembled into just that layout (`Disassembly.ofCursor_encoded`).

The target of a goto stands in the four bytes behind its opcode (`Instruction.bytes_withTarget`), so
writing over them makes the same goto with another target (`putWord_target`).  Hence going through
the places of all targets moves each target on once and changes nothing else (`foldl_rebase`).
-/

namespace MessageMachine

/-- The room that the elements of a list take. -/
def extent {α : Type} (size : α → Nat) : List α → Nat
  | [] => 0
  | x :: xs => size x + extent size xs

/-- The elements of a list with the places where they begin. -/
def layout {α : Type} (size : α → Nat) : (start : Nat) → List α → List (Nat × α)
  | _, [] => []
  | start, x :: xs => (start, x) :: layout size (start + size x) xs

section

variable {α β : Type} (size : α → Nat)

theorem extent_append (xs ys : List α) :
    extent size (xs ++ ys) = extent size xs + extent size ys := by
  induction xs with
  | nil => exact (Nat.zero_add _).symm
  | cons x xs ih => rw [List.cons_append, extent, extent, ih, Nat.add_assoc]

theorem layout_append (start : Nat) (xs ys : List α) :
    layout size start (xs ++ ys) =
      layout size start xs ++ layout size (start + extent size xs) ys := by
  induction xs generalizing start with
  | nil => rfl
  | cons x xs ih => rw [List.cons_append, layout, layout, ih, extent, Nat.add_assoc]; rfl

variable {f : α → Option β} {size} {room : β → Nat}
  (h : ∀ x, size x = ((f x).map room).getD 0)
include h

/-- Leaving out elements that take no room leaves the extent as it is. -/
theorem extent_filterMap (xs : List α) : extent room (xs.filterMap f) = extent size xs := by
  induction xs with
  | nil => rfl
  | cons x xs ih =>
    rw [extent, h x, ← ih]
    cases hf : f x with
    | none => rw [List.filterMap_cons_none hf]; exact (Nat.zero_add _).symm
    | some y => rw [List.filterMap_cons_some hf]; rfl

/-- Leaving out elements that take no room does not move the others. -/
theorem layout_filterMap (start : Nat) (xs : List α) :
    layout room start (xs.filterMap f) =
      (layout size start xs).filterMap fun (place, x) => (f x).map (place, ·) := by
  induction xs generalizing start with
  | nil => rfl
  | cons x xs ih =>
    rw [layout, h x]
    cases hf : f x with
    | none => simp [hf, ih]
    | some y => simp [layout, hf, ih]

end

namespace Instruction

/-- How many bytes the assembler writes for an instruction. -/
def size (i : Instruction) : Nat := i.bytes.length

/-- The bytes of instructions laid end to end. -/
def encodeAll (is : List Instruction) : List UInt8 := is.flatMap bytes

theorem length_encodeAll (is : List Instruction) : (encodeAll is).length = extent size is := by
  induction is with
  | nil => rfl
  | cons i is ih =>
    rw [encodeAll] at ih
    rw [encodeAll, List.flatMap_cons, List.length_append, ih]
    rfl

end Instruction

namespace Disassembly

theorem ofCursor_of_atEnd {c : Cursor} (h : c.atEnd) : ofCursor c = ⟨[], c.offset, none⟩ := by
  rw [ofCursor, if_pos h]

theorem ofCursor_of_decode {c d : Cursor} {i : Instruction} (more : ¬ c.atEnd)
    (h : Instruction.decode c = (.ok i, d)) :
    ofCursor c =
      { ofCursor d with instructions := (c.offset, i) :: (ofCursor d).instructions } := by
  rw [ofCursor, if_neg more]
  split
  · rename_i j e h'
    rw [h] at h'
    cases h'
    rfl
  · rename_i h'
    rw [h] at h'
    cases h'

theorem ofCursor_of_error {c d : Cursor} {f : Fault} (more : ¬ c.atEnd)
    (h : Instruction.decode c = (.error f, d)) : ofCursor c = ⟨[], d.offset, some f⟩ := by
  rw [ofCursor, if_neg more]
  split
  · rename_i h'
    rw [h] at h'
    cases h'
  · rename_i h'
    rw [h] at h'
    cases h'
    rfl

/-- A disassembly finds the instructions that were encoded, where they were laid. -/
theorem ofCursor_encoded {is : List Instruction} (h : ∀ i ∈ is, i.Encodable)
    (before : List UInt8) :
    ofCursor ⟨(before ++ Instruction.encodeAll is).toArray, before.length⟩ =
      ⟨layout Instruction.size before.length is,
        before.length + (Instruction.encodeAll is).length, none⟩ := by
  induction is generalizing before with
  | nil => exact ofCursor_of_atEnd (by simp [Cursor.atEnd, Instruction.encodeAll])
  | cons i is ih =>
    have code : before ++ Instruction.encodeAll (i :: is) =
        before ++ i.bytes ++ Instruction.encodeAll is := by simp [Instruction.encodeAll]
    have read := i.reads (h i List.mem_cons_self) before (Instruction.encodeAll is)
    have rest := ih (fun j hj => h j (List.mem_cons_of_mem _ hj)) (before ++ i.bytes)
    have more : ¬ Cursor.atEnd
        ⟨(before ++ i.bytes ++ Instruction.encodeAll is).toArray, before.length⟩ := by
      have := i.length_bytes_pos
      simp only [Cursor.atEnd, List.size_toArray, List.length_append, decide_eq_true_eq]
      omega
    rw [List.length_append] at rest
    rw [code, ofCursor_of_decode more read, rest]
    simp [layout, Instruction.size, Instruction.encodeAll, Nat.add_assoc]

end Disassembly

/-! ## Targets -/

namespace Instruction

/-- Where a goto leads. -/
def target? : Instruction → Option UInt32
  | goto target => some target
  | gotoIf _ target _ => some target
  | _ => none

/-- The same goto with another target. -/
def withTarget (target : UInt32) : Instruction → Instruction
  | goto _ => goto target
  | gotoIf wanted _ condition => gotoIf wanted target condition
  | i => i

/-- The instruction with its target, if it has one, moved on by `distance`. -/
def moved (distance : UInt32) (i : Instruction) : Instruction :=
  match i.target? with
  | some target => i.withTarget (target + distance)
  | none => i

theorem moved_of_none {i : Instruction} (h : i.target? = none) (distance : UInt32) :
    i.moved distance = i := by
  rw [moved, h]

theorem withTarget_target {i : Instruction} {t : UInt32} (h : i.target? = some t) :
    i.withTarget t = i := by
  cases i <;> cases h <;> rfl

theorem target?_withTarget {i : Instruction} {t : UInt32} (h : i.target? = some t) (t' : UInt32) :
    (i.withTarget t').target? = some t' := by
  cases i <;> cases h <;> rfl

@[simp] theorem size_withTarget (t : UInt32) (i : Instruction) :
    (i.withTarget t).size = i.size := by
  cases i <;> simp [withTarget, size, bytes]

/-- The target of a goto stands behind its opcode. -/
theorem bytes_withTarget {i : Instruction} {t : UInt32} (h : i.target? = some t) :
    ∃ opcode rest, ∀ t', (i.withTarget t').bytes = opcode :: (bytesOfWord t' ++ rest) := by
  cases i with
  | goto => exact ⟨Assembly.gotoOpcode .always none, [], fun _ => by simp [withTarget, bytes]⟩
  | gotoIf => exact ⟨_, _, fun _ => rfl⟩
  | unary | binary | call | handOver | leave | line => cases h

@[simp] theorem size_moved (distance : UInt32) (i : Instruction) :
    (i.moved distance).size = i.size := by
  unfold moved
  split
  · exact i.size_withTarget _
  · rfl

theorem length_encodeAll_moved (distance : UInt32) (is : List Instruction) :
    (encodeAll (is.map (·.moved distance))).length = (encodeAll is).length := by
  rw [length_encodeAll, length_encodeAll]
  induction is with
  | nil => rfl
  | cons i is ih => rw [List.map_cons, extent, extent, ih, size_moved]

theorem Encodable.moved {i : Instruction} (h : i.Encodable) (distance : UInt32) :
    (i.moved distance).Encodable := by
  cases i <;> exact h

/-- The places of the targets of instructions that are laid from `start` on. -/
def targetPlaces (start : Nat) (is : List Instruction) : List Nat :=
  (layout size start is).filterMap fun (place, i) => i.target?.map fun _ => place + 1

theorem targetPlaces_append (start : Nat) (is js : List Instruction) :
    targetPlaces start (is ++ js) =
      targetPlaces start is ++ targetPlaces (start + (encodeAll is).length) js := by
  simp only [targetPlaces, layout_append, List.filterMap_append, length_encodeAll]

theorem targetPlaces_of_target {i : Instruction} {t : UInt32} (h : i.target? = some t)
    (start : Nat) (is : List Instruction) :
    targetPlaces start (i :: is) = (start + 1) :: targetPlaces (start + i.size) is := by
  simp [targetPlaces, layout, h]

theorem targetPlaces_of_none {i : Instruction} (h : i.target? = none) (start : Nat)
    (is : List Instruction) : targetPlaces start (i :: is) = targetPlaces (start + i.size) is := by
  simp [targetPlaces, layout, h]

end Instruction

namespace Assembly

theorem putWord_toArray (before old after : List UInt8) (h : old.length = 4) (w : UInt32) :
    putWord (before ++ (old ++ after)).toArray before.length w =
      (before ++ (bytesOfWord w ++ after)).toArray := by
  obtain ⟨a, b, c, d, rfl⟩ : ∃ a b c d, old = [a, b, c, d] := by
    match old, h with
    | [a, b, c, d], _ => exact ⟨a, b, c, d, rfl⟩
  simp [putWord, bytesOfWord, List.set_append_right]

theorem wordAt_toArray (before after : List UInt8) (w : UInt32) :
    wordAt (before ++ (bytesOfWord w ++ after)).toArray before.length = w := by
  simp [wordAt, bytesOfWord, wordOfBytes_bytes]

section Target

variable {i : Instruction} {t : UInt32} (h : i.target? = some t) (before after : List UInt8)
include h

/-- Writing over the target of a goto makes it the same goto with another target. -/
theorem putWord_target (t' : UInt32) :
    putWord (before ++ i.bytes ++ after).toArray (before.length + 1) t' =
      (before ++ (i.withTarget t').bytes ++ after).toArray := by
  obtain ⟨opcode, rest, written⟩ := Instruction.bytes_withTarget h
  have := putWord_toArray (before ++ [opcode]) (bytesOfWord t) (rest ++ after) rfl t'
  have old := written t
  rw [Instruction.withTarget_target h] at old
  simpa [old, written] using this

theorem wordAt_target :
    wordAt (before ++ i.bytes ++ after).toArray (before.length + 1) = t := by
  obtain ⟨opcode, rest, written⟩ := Instruction.bytes_withTarget h
  have := wordAt_toArray (before ++ [opcode]) (rest ++ after) t
  have old := written t
  rw [Instruction.withTarget_target h] at old
  simpa [old] using this

end Target

/-- Each target is moved on once, and the code stays as it is otherwise. -/
theorem foldl_rebase (distance : UInt32) (is : List Instruction) (before : List UInt8) :
    (Instruction.targetPlaces before.length is).foldl (rebase distance)
        (before ++ Instruction.encodeAll is).toArray =
      (before ++ Instruction.encodeAll (is.map (·.moved distance))).toArray := by
  induction is generalizing before with
  | nil => rfl
  | cons i is ih =>
    have rest := ih (before ++ (i.moved distance).bytes)
    have size : (i.moved distance).bytes.length = i.size := i.size_moved distance
    rw [List.length_append, size] at rest
    simp only [Instruction.encodeAll, List.map_cons, List.flatMap_cons, ← List.append_assoc]
      at rest ⊢
    rw [← rest]
    cases h : i.target? with
    | none =>
      rw [Instruction.targetPlaces_of_none h]
      simp only [Instruction.moved, h]
    | some t =>
      have first (after : List UInt8) :
          rebase distance (before ++ i.bytes ++ after).toArray (before.length + 1) =
            (before ++ (i.withTarget (t + distance)).bytes ++ after).toArray := by
        rw [rebase, wordAt_target h, putWord_target h]
      rw [Instruction.targetPlaces_of_target h, List.foldl_cons, first]
      simp only [Instruction.moved, h]

end Assembly

end MessageMachine
