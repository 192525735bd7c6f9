import Mathlib.Logic.Function.Iterate
import MessageMachine.Proofs.Code.PrefixCode

/-!
# Bodies are tiled by their instructions

A decoder reads a body item by item, whenever it is asked for the next one.  What it gives is what
the disassembly has (`Decoder.next_after`): an item for each instruction, then the fault if there is
one, then nothing more.

`Tiles code start items stop` says that instructions stand one behind the other in the code, each
from where the one before it ends.  Those of a disassembly do, up to an offset where the code ends
or cannot be read (`Disassembly.exists_tiles`), and that is where a decoder has got to when it has
given them all (`Tiles.after`).  So there are no more items than bytes, and no byte is left out or
read twice (`Disassembly.tiling`).
-/

namespace MessageMachine

/-! ## Item by item -/

namespace Decoder

/-- The decoder when it has been asked `k` times. -/
def after (d : Decoder) (k : Nat) : Decoder := (fun d => d.next.2)^[k] d

section

variable {d : Decoder}

@[simp] theorem after_zero : d.after 0 = d := rfl

theorem after_succ (k : Nat) : d.after (k + 1) = d.next.2.after k := rfl

theorem after_add (j k : Nat) : d.after (j + k) = (d.after j).after k := by
  rw [Nat.add_comm]
  exact Function.iterate_add_apply _ k j d

/-- A decoder that has nothing to give stays as it is. -/
theorem after_of_none (h : d.next = (none, d)) (k : Nat) : d.after k = d :=
  Function.iterate_fixed (congrArg Prod.snd h) k

theorem next_of_failed (h : d.failed = true) : d.next = (none, d) := by
  simp [next, h]

end

section

variable {code : Array UInt8} {start : Nat}

theorem next_of_size_le (h : code.size ≤ start) :
    (ofCode code start).next = (none, ofCode code start) := by
  simp [next, ofCode, Cursor.atEnd, h]

theorem next_of_ok {i : Instruction} {c : Cursor} (inside : start < code.size)
    (h : Instruction.decode ⟨code, start⟩ = (.ok i, c)) :
    (ofCode code start).next = (some (.ok (start, i)), ⟨c, false⟩) := by
  simp [next, ofCode, Cursor.atEnd, Nat.not_le.mpr inside, h]

theorem next_of_error {f : Fault} {c : Cursor} (inside : start < code.size)
    (h : Instruction.decode ⟨code, start⟩ = (.error f, c)) :
    (ofCode code start).next = (some (.error f), ⟨c, true⟩) := by
  simp [next, ofCode, Cursor.atEnd, Nat.not_le.mpr inside, h]

end

end Decoder

/-- An instruction takes at least one byte, and no byte that is not there. -/
theorem Instruction.decode_inside {code : Array UInt8} {offset next : Nat} {i : Instruction}
    (h : decode ⟨code, offset⟩ = (.ok i, ⟨code, next⟩)) : offset < next ∧ next ≤ code.size := by
  obtain ⟨bytes, spans, -⟩ := exists_spans_of_decode h
  exact ⟨(decode_advances h).2, spans.inside⟩

namespace Disassembly

/-- The instructions of a disassembly, and then its fault. -/
def items (d : Disassembly) : List (Except Fault (Nat × Instruction)) :=
  d.instructions.map .ok ++ d.fault.toList.map .error

theorem length_items (d : Disassembly) :
    d.items.length = d.instructions.length + d.fault.toList.length := by
  simp [items]

theorem fault_eq_none_iff (d : Disassembly) :
    d.fault = none ↔ ∀ item ∈ d.items, ∃ found, item = .ok found := by
  cases broken : d.fault with
  | none =>
    simp only [items, broken, Option.toList_none, List.map_nil, List.append_nil, true_iff]
    intro item mem
    obtain ⟨found, -, rfl⟩ := List.mem_map.mp mem
    exact ⟨found, rfl⟩
  | some f => simp [items, broken]

/-- A disassembly is over, goes on behind an instruction, or has come upon something that
cannot be read. -/
theorem ofCode_cases (code : Array UInt8) (start : Nat) :
    code.size ≤ start ∧ ofCode code start = ⟨[], start, none⟩ ∨
    start < code.size ∧
      ((∃ i next, Instruction.decode ⟨code, start⟩ = (.ok i, ⟨code, next⟩) ∧
        ofCode code start = ⟨(start, i) :: (ofCode code next).instructions, (ofCode code next).stop,
          (ofCode code next).fault⟩) ∨
      ∃ f c, Instruction.decode ⟨code, start⟩ = (.error f, c) ∧
        ofCode code start = ⟨[], c.offset, some f⟩) := by
  by_cases beyond : code.size ≤ start
  · exact .inl ⟨beyond, ofCursor_of_atEnd (decide_eq_true beyond)⟩
  · have more : ¬ (Cursor.mk code start).atEnd := by simpa [Cursor.atEnd] using beyond
    refine .inr ⟨Nat.lt_of_not_le beyond, ?_⟩
    generalize decoded : Instruction.decode ⟨code, start⟩ = outcome
    obtain ⟨result, ⟨code', next⟩⟩ := outcome
    cases result with
    | ok i =>
      obtain rfl : code' = code := (Instruction.decode_advances decoded).1
      exact .inl ⟨i, next, rfl, ofCursor_of_decode more decoded⟩
    | error f => exact .inr ⟨f, _, rfl, ofCursor_of_error more decoded⟩

end Disassembly

/-- A decoder gives the items of the disassembly, one after the other, and then nothing. -/
theorem Decoder.next_after (code : Array UInt8) (start k : Nat) :
    ((ofCode code start).after k).next.1 = (Disassembly.ofCode code start).items[k]? := by
  induction k generalizing start with
  | zero =>
    obtain ⟨ended, empty⟩ | ⟨inside, ⟨i, next, decoded, found⟩ | ⟨f, c, decoded, broken⟩⟩ :=
      Disassembly.ofCode_cases code start
    · rw [empty, after_zero, next_of_size_le ended]
      rfl
    · rw [found, after_zero, next_of_ok inside decoded]
      rfl
    · rw [broken, after_zero, next_of_error inside decoded]
      rfl
  | succ k ih =>
    obtain ⟨ended, empty⟩ | ⟨inside, ⟨i, next, decoded, found⟩ | ⟨f, c, decoded, broken⟩⟩ :=
      Disassembly.ofCode_cases code start
    · rw [empty, after_of_none (next_of_size_le ended), next_of_size_le ended]
      rfl
    · rw [after_succ, next_of_ok inside decoded, found]
      exact ih next
    · have done : (Decoder.mk c true).next = (none, ⟨c, true⟩) := next_of_failed rfl
      rw [after_succ, next_of_error inside decoded, after_of_none done, done, broken]
      rfl

/-! ## Instructions without a gap -/

/-- The instructions take the code from one offset to another, each from where the one
before it ends. -/
inductive Tiles (code : Array UInt8) : Nat → List (Nat × Instruction) → Nat → Prop
  | nil (offset : Nat) : Tiles code offset [] offset
  | cons {offset next stop : Nat} {i : Instruction} {rest : List (Nat × Instruction)}
      (decoded : Instruction.decode ⟨code, offset⟩ = (.ok i, ⟨code, next⟩))
      (others : Tiles code next rest stop) : Tiles code offset ((offset, i) :: rest) stop

namespace Decoder

variable {code : Array UInt8} {start : Nat}

/-- Where a decoder of the code has got to when it has been asked `k` times. -/
def place (code : Array UInt8) (start k : Nat) : Nat := ((ofCode code start).after k).offset

@[simp] theorem place_zero : place code start 0 = start := rfl

/-- Where the code ends nothing more comes. -/
theorem place_of_size_le (h : code.size ≤ start) (k : Nat) : place code start k = start :=
  congrArg offset (after_of_none (next_of_size_le h) k)

/-- Behind an instruction a decoder goes on as one that begins there. -/
theorem after_succ_of_ok {next : Nat} {i : Instruction}
    (h : Instruction.decode ⟨code, start⟩ = (.ok i, ⟨code, next⟩)) (k : Nat) :
    (ofCode code start).after (k + 1) = (ofCode code next).after k := by
  obtain ⟨advances, inside⟩ := Instruction.decode_inside h
  rw [after_succ, next_of_ok (Nat.lt_of_lt_of_le advances inside) h]
  rfl

theorem place_succ {next : Nat} {i : Instruction}
    (h : Instruction.decode ⟨code, start⟩ = (.ok i, ⟨code, next⟩)) (k : Nat) :
    place code start (k + 1) = place code next k :=
  congrArg offset (after_succ_of_ok h k)

end Decoder

namespace Tiles

open Decoder (place place_zero place_succ)

variable {code : Array UInt8} {start stop : Nat} {items : List (Nat × Instruction)}

theorem stop_le (h : Tiles code start items stop) (inside : start ≤ code.size) :
    stop ≤ code.size := by
  induction h with
  | nil => exact inside
  | cons decoded _ ih => exact ih (Instruction.decode_inside decoded).2

theorem add_length_le (h : Tiles code start items stop) : start + items.length ≤ stop := by
  induction h with
  | nil => exact Nat.le_refl _
  | cons decoded _ ih =>
    have := (Instruction.decode_inside decoded).1
    rw [List.length_cons]
    omega

/-- A decoder that has given the instructions is at the end of the last one. -/
theorem after (h : Tiles code start items stop) :
    (Decoder.ofCode code start).after items.length = .ofCode code stop := by
  induction h with
  | nil => rfl
  | cons decoded others ih =>
    rw [List.length_cons, Decoder.after_succ_of_ok decoded]
    exact ih

theorem place_length (h : Tiles code start items stop) : place code start items.length = stop :=
  congrArg Decoder.offset h.after

/-- Each instruction is read where the decoder is when it is asked for it. -/
theorem getElem (h : Tiles code start items stop) (k : Nat) (lt : k < items.length) :
    items[k].1 = place code start k ∧
      Instruction.decode ⟨code, place code start k⟩ =
        (.ok items[k].2, ⟨code, place code start (k + 1)⟩) := by
  induction h generalizing k with
  | nil => cases lt
  | cons decoded others ih =>
    cases k with
    | zero =>
      rw [place_succ decoded]
      exact ⟨rfl, decoded⟩
    | succ k =>
      rw [place_succ decoded, place_succ decoded]
      exact ih k (Nat.lt_of_succ_lt_succ lt)

/-- The instructions take all bytes between the two offsets. -/
theorem flatMap_extract (h : Tiles code start items stop) :
    (List.range items.length).flatMap
        (fun k => (code.extract (place code start k) (place code start (k + 1))).toList) =
      (code.extract start stop).toList := by
  induction h with
  | nil => simp
  | cons decoded others ih =>
    have first := Nat.le_of_lt (Instruction.decode_inside decoded).1
    have second := Nat.le_of_add_right_le others.add_length_le
    rw [List.length_cons, List.range_succ_eq_map, List.flatMap_cons, List.flatMap_map]
    simp only [place_succ decoded, place_zero, ih]
    rw [← Array.toList_append, Array.extract_append_extract, Nat.min_eq_left first,
      Nat.max_eq_right second]

end Tiles

/-! ## The whole body -/

namespace Disassembly

/-- The instructions of a disassembly stand one behind the other, up to the end of the code or to
something that cannot be read. -/
theorem exists_tiles (code : Array UInt8) (start : Nat) :
    ∃ last, Tiles code start (ofCode code start).instructions last ∧
      ((ofCode code start).fault = none ∧ (ofCode code start).stop = last ∧ code.size ≤ last ∨
        ∃ f c, (ofCode code start).fault = some f ∧ last < code.size ∧
          Instruction.decode ⟨code, last⟩ = (.error f, c)) := by
  induction n : code.size - start using Nat.strongRecOn generalizing start with
  | _ n ih =>
    obtain ⟨ended, empty⟩ | ⟨inside, ⟨i, next, decoded, found⟩ | ⟨f, c, decoded, broken⟩⟩ :=
      ofCode_cases code start
    · rw [empty]
      exact ⟨start, .nil start, .inl ⟨rfl, rfl, ended⟩⟩
    · obtain ⟨advances, -⟩ := Instruction.decode_inside decoded
      obtain ⟨last, tiles, ending⟩ := ih (code.size - next) (by omega) next rfl
      rw [found]
      exact ⟨last, .cons decoded tiles, ending⟩
    · rw [broken]
      exact ⟨start, .nil start, .inr ⟨f, c, rfl, inside, decoded⟩⟩

/-- A body that reads to its end is tiled up to there. -/
theorem tiles_of_whole {code : Array UInt8} {start : Nat} (inside : start ≤ code.size)
    (whole : (ofCode code start).fault = none) :
    Tiles code start (ofCode code start).instructions code.size := by
  obtain ⟨last, tiles, ⟨-, -, ended⟩ | ⟨f, c, broken, -⟩⟩ := exists_tiles code start
  · obtain rfl : last = code.size := Nat.le_antisymm (tiles.stop_le inside) ended
    exact tiles
  · cases whole.symm.trans broken

/-- There is nothing to be read beyond the code. -/
theorem ofCode_of_size_le {code : Array UInt8} {start : Nat} (beyond : code.size ≤ start) :
    ofCode code start = ⟨[], start, none⟩ :=
  ofCursor_of_atEnd (decide_eq_true beyond)

end Disassembly

/-- A body that is read from an offset on is cut into the items of a disassembly. -/
structure Decoder.Tiling (code : Array UInt8) (start : Nat) (d : Disassembly) : Prop where
  /-- A decoder gives the items one after the other, and then nothing more. -/
  next_after (k : Nat) : ((ofCode code start).after k).next.1 = d.items[k]?
  length_le : d.items.length ≤ code.size - start
  begins : place code start 0 = start
  /-- Each instruction takes the bytes from where the one before it ends. -/
  instruction (k : Nat) (lt : k < d.instructions.length) :
    d.instructions[k].1 = place code start k ∧ place code start k < place code start (k + 1) ∧
      place code start (k + 1) ≤ code.size ∧
      Instruction.decode ⟨code, place code start k⟩ =
        (.ok d.instructions[k].2, ⟨code, place code start (k + 1)⟩)
  /-- A fault is about what stands behind the last instruction. -/
  fault (f : Fault) (broken : d.fault = some f) :
    place code start d.instructions.length < code.size ∧
      (Instruction.decode ⟨code, place code start d.instructions.length⟩).1 = .error f
  /-- Without a fault a decoder gets to the end of the code and stays there. -/
  ends (whole : d.fault = none) (inside : start ≤ code.size) (k : Nat)
    (le : d.instructions.length ≤ k) : place code start k = code.size
  /-- Without a fault the bytes of the instructions are all that there are. -/
  bytes (whole : d.fault = none) :
    (List.range d.instructions.length).flatMap
        (fun k => (code.extract (place code start k) (place code start (k + 1))).toList) =
      (code.extract start code.size).toList
  /-- Beyond the code there is nothing. -/
  outside (beyond : code.size ≤ start) : d.items = [] ∧ ∀ k, place code start k = start

/-- Reading a body cuts it into items. -/
theorem Disassembly.tiling (code : Array UInt8) (start : Nat) :
    Decoder.Tiling code start (ofCode code start) where
  next_after := Decoder.next_after code start
  length_le := by
    rw [length_items]
    obtain ⟨last, tiles, ⟨whole, -, -⟩ | ⟨f, c, broken, lt, -⟩⟩ := exists_tiles code start
    · rw [whole]
      by_cases inside : start ≤ code.size
      · exact Nat.le_sub_of_add_le' (tiles_of_whole inside whole).add_length_le
      · rw [ofCode_of_size_le (Nat.le_of_not_le inside)]
        exact Nat.zero_le _
    · rw [broken]
      exact Nat.le_sub_of_add_le' (Nat.lt_of_le_of_lt tiles.add_length_le lt)
  begins := Decoder.place_zero
  instruction k lt := by
    obtain ⟨last, tiles, -⟩ := exists_tiles code start
    obtain ⟨place, decoded⟩ := tiles.getElem k lt
    obtain ⟨advances, inside⟩ := Instruction.decode_inside decoded
    exact ⟨place, advances, inside, decoded⟩
  fault f broken := by
    obtain ⟨last, tiles, ⟨whole, -, -⟩ | ⟨g, c, known, lt, failed⟩⟩ := exists_tiles code start
    · cases broken.symm.trans whole
    · cases broken.symm.trans known
      rw [tiles.place_length, failed]
      exact ⟨lt, rfl⟩
  ends whole inside k le := by
    obtain ⟨more, rfl⟩ := Nat.exists_eq_add_of_le le
    rw [Decoder.place, Decoder.after_add, (tiles_of_whole inside whole).after]
    exact Decoder.place_of_size_le (Nat.le_refl _) more
  bytes whole := by
    by_cases inside : start ≤ code.size
    · exact (tiles_of_whole inside whole).flatMap_extract
    · have beyond := Nat.le_of_not_le inside
      simp [ofCode_of_size_le beyond, beyond]
  outside beyond := ⟨by simp [items, ofCode_of_size_le beyond], Decoder.place_of_size_le beyond⟩

end MessageMachine
