import MessageMachine.Proofs.Arithmetic
import MessageMachine.Value.Packed

/-!
# Values as words

A value is written in two ways, as a word of 64 bits and as a packed constant of 32.  Both have
the tag in the top four bits and a payload below it.  This module says in numbers which word
belongs to which value.

The bits of a payload are its number modulo a power of two (`toNat_toWord`, `toNat_of_packed?`).
What is left to say is which number the bits are read as.  A word has room for all numbers that
there are, so words and values are the same.  A packed constant has room for fewer, and an integer
is read with a sign while every other payload is read without one; so the numbers that fit depend on
the tag (`packable_iff`).  All 32-bit words are packed constants, those included whose payload looks
like nothing that was ever packed.
-/

namespace MessageMachine

theorem toNat_append_eq {m n : Nat} (x : BitVec m) (y : BitVec n) :
    (x ++ y).toNat = x.toNat * 2 ^ n + y.toNat := by
  rw [BitVec.toNat_append, ← Nat.shiftLeft_add_eq_or_of_lt y.isLt, Nat.shiftLeft_eq]

namespace Value

variable {v : Value}

/-! ## Payloads -/

/-- The bits of a payload, read without a sign. -/
theorem toNat_payload (v : Value) : (v.payload.toNat : Int) = v.number % 2 ^ 60 := by
  have signed := BitVec.toInt_eq_toNat_cond v.payload
  have below := v.payload.isLt
  unfold number
  split at signed <;> omega

/-- A number is cut to the one in reach that is congruent to it. -/
theorem number_ofInt_modEq (tag : Tag) (i : Int) : (ofInt tag i).number ≡ i [ZMOD 2 ^ 60] := by
  show (BitVec.ofInt 60 i).toInt % 2 ^ 60 = i % 2 ^ 60
  rw [BitVec.toInt_ofInt]
  exact Int.bmod_emod

/-- A value is made of its tag and its number. -/
theorem ofInt_number (v : Value) : ofInt v.tag v.number = v := by
  rw [ofInt, number, BitVec.ofInt_toInt]

/-! ## Words of 64 bits -/

theorem toNat_toWord (v : Value) :
    (v.toWord.toNat : Int) = v.tag.bits.toNat * 2 ^ 60 + v.number % 2 ^ 60 := by
  have layout : v.toWord.toNat = v.tag.bits.toNat * 2 ^ 60 + v.payload.toNat :=
    toNat_append_eq _ _
  rw [layout, ← toNat_payload]
  push_cast
  rfl

/-! ## Packed constants -/

theorem toNat_of_packed? {c : UInt32} (h : v.packed? = some c) :
    (c.toNat : Int) = v.tag.bits.toNat * 2 ^ 28 + v.number % 2 ^ 28 := by
  have low : (v.number % 2 ^ 28 : Int) = (v.payload.toNat % 2 ^ 28 : Nat) := by
    have := v.toNat_payload
    omega
  rw [low]
  unfold packed? at h
  split at h
  · cases h
    have layout := toNat_append_eq v.tag.bits (v.payload.setWidth 28)
    rw [BitVec.toNat_setWidth] at layout
    exact_mod_cast layout
  · cases h

theorem packable_iff (v : Value) :
    v.Packable ↔ v.tag = .int ∧ -2 ^ 27 ≤ v.number ∧ v.number < 2 ^ 27 ∨
      v.tag ≠ .int ∧ 0 ≤ v.number ∧ v.number < 2 ^ 28 := by
  unfold Packable
  by_cases tag : v.tag = .int <;> simp [tag]

/-- What comes back of a value that is packed and unpacked. -/
theorem map_ofPacked_packed? (v : Value) :
    v.packed?.map ofPacked = if v.Packable then some v else none := by
  by_cases fits : v.Packable
  · have packs : v.packed? = some _ := if_pos fits
    rw [packs, if_pos fits, Option.map_some, ofPacked_of_packed? packs]
  · rw [packed?, if_neg fits, if_neg fits, Option.map_none]

/-- **Words, packed constants and values, in numbers.**  A word that is made of a tag and a number
is read as the tag and the number that is congruent to the given one modulo `2^60` and fits sixty
bits with a sign; and every word is made of what it is read as.  Every 32-bit word is the packed
form of what it unpacks to.  A value has a packed form just if its number fits, with a sign for
integers and without one for others, and then it is what the packed form unpacks to. -/
theorem words_exact :
    (∀ (tag : Tag) (p : Int),
      ofWord (ofInt tag p).toWord = ofInt tag p ∧ (ofInt tag p).tag = tag ∧
        -2 ^ 59 ≤ (ofInt tag p).number ∧ (ofInt tag p).number < 2 ^ 59 ∧
        (ofInt tag p).number ≡ p [ZMOD 2 ^ 60]) ∧
    (∀ w : UInt64,
      (ofInt (ofWord w).tag (ofWord w).number).toWord = w ∧
        (w.toNat : Int) = (ofWord w).tag.bits.toNat * 2 ^ 60 + (ofWord w).number % 2 ^ 60) ∧
    (∀ c : UInt32,
      (ofPacked c).packed? = some c ∧
        (c.toNat : Int) = (ofPacked c).tag.bits.toNat * 2 ^ 28 + (ofPacked c).number % 2 ^ 28) ∧
    ∀ v : Value,
      v.packed?.map ofPacked =
        if v.tag = .int ∧ -2 ^ 27 ≤ v.number ∧ v.number < 2 ^ 27 ∨
          v.tag ≠ .int ∧ 0 ≤ v.number ∧ v.number < 2 ^ 28 then some v else none := by
  refine ⟨fun tag p => ?_, fun w => ?_, fun c => ?_, fun v => ?_⟩
  · exact ⟨ofWord_toWord _, rfl, le_number _, number_lt _, number_ofInt_modEq tag p⟩
  · have layout := (ofWord w).toNat_toWord
    rw [toWord_ofWord] at layout
    exact ⟨by rw [ofInt_number, toWord_ofWord], layout⟩
  · exact ⟨packed?_ofPacked c, toNat_of_packed? (packed?_ofPacked c)⟩
  · simp only [map_ofPacked_packed?, packable_iff]

/-- The lowest bit pattern that is read with a sign: an integer has it and a string has not. -/
example :
    (ofPacked 0x18000000).number = -2 ^ 27 ∧ (ofPacked 0x98000000).number = 2 ^ 27 := by decide

end Value

end MessageMachine
