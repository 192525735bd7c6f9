import MessageMachine.Value

/-!
# Packed constants

Inside code a constant takes four bytes.  The tag keeps its four bits, on top, and twenty-eight bits
are left for the payload: an integer is sign-extended from them, any other payload is taken as it
stands.

`Value.ofPacked` widens and `Value.packed?` narrows.  Narrowing fails on the values that do not fit;
on those that do, the two undo each other (`packed?_ofPacked`, `ofPacked_of_packed?`).
-/

namespace MessageMachine

namespace Value

/-- The value of a packed constant. -/
def ofPacked (c : UInt32) : Value :=
  let tag := Tag.ofBits (c.toBitVec.extractLsb' 28 4)
  let low := c.toBitVec.extractLsb' 0 28
  ⟨tag, if tag = .int then low.signExtend 60 else low.setWidth 60⟩

/-- The signed payloads that a packed constant has room for. -/
def Packable (v : Value) : Prop :=
  if v.tag = .int then -0x8000000 ≤ v.number ∧ v.number < 0x8000000
  else 0 ≤ v.number ∧ v.number < 0x10000000

instance (v : Value) : Decidable v.Packable := by unfold Packable; infer_instance

/-- The packed form of a value, if it has one. -/
def packed? (v : Value) : Option UInt32 :=
  if v.Packable then some ⟨v.tag.bits ++ v.payload.setWidth 28⟩ else none

/-! ## Narrowing and widening -/

/-- The payload of a packable value is what its low bits widen to. -/
theorem Packable.widen {v : Value} (h : v.Packable) :
    (if v.tag = .int then (v.payload.setWidth 28).signExtend 60
      else (v.payload.setWidth 28).setWidth 60) = v.payload := by
  unfold Packable number at h
  have signed := BitVec.toInt_eq_toNat_cond v.payload
  have below := v.payload.isLt
  split at h
  · rw [if_pos ‹_›]
    apply BitVec.eq_of_toInt_eq
    rw [BitVec.toInt_signExtend_of_le (by decide), BitVec.toInt_setWidth, Int.bmod_def]
    split at signed <;> split <;> omega
  · rw [if_neg ‹_›]
    apply BitVec.eq_of_toNat_eq
    simp only [BitVec.toNat_setWidth]
    split at signed <;> omega

theorem ofPacked_of_packed? {v : Value} {c : UInt32} (h : v.packed? = some c) :
    ofPacked c = v := by
  unfold packed? at h
  split at h
  · rename_i fits
    cases h
    simp only [ofPacked]
    rw [BitVec.extractLsb'_append_eq_left, Tag.ofBits_bits, BitVec.extractLsb'_append_eq_right,
      fits.widen]
  · cases h

theorem packable_ofPacked (c : UInt32) : (ofPacked c).Packable := by
  have := BitVec.toInt_lt (x := c.toBitVec.extractLsb' 0 28)
  have := BitVec.le_toInt (x := c.toBitVec.extractLsb' 0 28)
  have := (c.toBitVec.extractLsb' 0 28).isLt
  unfold Packable ofPacked number
  dsimp only
  split
  · rw [BitVec.toInt_signExtend_of_le (by decide)]
    omega
  · rw [BitVec.toInt_setWidth, Int.bmod_def]
    split <;> omega

theorem setWidth_payload_ofPacked (c : UInt32) :
    (ofPacked c).payload.setWidth 28 = c.toBitVec.extractLsb' 0 28 := by
  unfold ofPacked
  dsimp only
  split
  · ext i hi
    rw [BitVec.getElem_setWidth, BitVec.getLsbD_signExtend, if_pos hi,
      BitVec.getLsbD_eq_getElem hi, decide_eq_true (by omega), Bool.true_and]
  · exact BitVec.setWidth_setWidth_of_le _ (by decide)

theorem packed?_ofPacked (c : UInt32) : (ofPacked c).packed? = some c := by
  rw [packed?, if_pos (packable_ofPacked c), setWidth_payload_ofPacked]
  simp only [ofPacked, Tag.bits_ofBits]
  rw [BitVec.extractLsb'_append_extractLsb'_eq_extractLsb' (show 28 = 0 + 28 from rfl)]
  exact congrArg (fun b => some (UInt32.ofBitVec b)) BitVec.extractLsb'_eq_self

end Value

end MessageMachine
