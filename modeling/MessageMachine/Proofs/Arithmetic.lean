import Mathlib.Data.Int.ModEq
import MessageMachine.Arithmetic

/-!
# What the operators compute, in numbers

Operators work on sixty-bit words.  This module says what comes of them in terms of the signed
numbers that the words stand for, and says it without words: sums, differences, products and
quotients are those of integers, up to a multiple of `2^60` (`Value.Wraps`); the remainder is the
one that is never negative; comparisons are those of integers (`Value.Tells`); and the bitwise
operators act on the binary digits of numbers in two's complement (`Value.digit`).

`UnaryOp.Yields` and `BinaryOp.Yields` put this together with the two ways to fail.  Each is a
relation between operands and outcomes that leaves just one outcome for any operands
(`Yields.unique`), and it is the outcome of the operator (`yields_apply`).

## Wider words

A machine with words of 64 bits may compute in these words, where results wrap around at another
place, and cut the result to a payload afterwards.  It gets the same values
(`BinaryOp.eq_of_wide?`): a multiple of `2^64` is one of `2^60` too, and quotients, remainders and
bitwise results of payloads never reach the bits that are cut.
-/

namespace MessageMachine

/-! ## Numbers of values -/

namespace Value

variable {v v' : Value} {i j : Int} {p : Prop}

theorem le_number (v : Value) : -2 ^ 59 ≤ v.number := v.payload.le_toInt

theorem number_lt (v : Value) : v.number < 2 ^ 59 := v.payload.toInt_lt

/-- A value is known by its tag and its number. -/
theorem eq_of_number (tag : v.tag = v'.tag) (number : v.number = v'.number) : v = v' := by
  cases v
  cases v'
  simp_all [Value.number, BitVec.toInt_inj]

theorem eq_iff_number (v v' : Value) : v = v' ↔ v.tag = v'.tag ∧ v.number = v'.number := by
  constructor
  · intro h
    simp [h]
  · intro ⟨tag, number⟩
    exact eq_of_number tag number

theorem number_eq_zero_iff (v : Value) : v.number = 0 ↔ v.payload = 0 := by
  rw [number, ← BitVec.toInt_inj]
  simp

theorem isTrue_iff (v : Value) : v.isTrue = true ↔ v.number ≠ 0 := by
  simp [isTrue, number_eq_zero_iff]

/-- A number that fits a payload is not cut. -/
theorem number_int (lower : -2 ^ 59 ≤ i) (upper : i < 2 ^ 59) : (Value.int i).number = i :=
  BitVec.toInt_ofInt_eq_self (by decide) lower upper

/-- The value is the integer for `i`: of all numbers that a payload has room for, it has the one
that is congruent to `i` modulo `2^60`. -/
structure Wraps (v : Value) (i : Int) : Prop where
  tag : v.tag = .int
  lower : -2 ^ 59 ≤ v.number
  upper : v.number < 2 ^ 59
  congruent : v.number ≡ i [ZMOD 2 ^ 60]

theorem wraps_of_toInt {w : BitVec 60} (h : w.toInt = i.bmod (2 ^ 60)) :
    (Value.mk .int w).Wraps i where
  tag := rfl
  lower := le_number _
  upper := number_lt _
  congruent := by
    show w.toInt % 2 ^ 60 = i % 2 ^ 60
    rw [h]
    exact Int.bmod_emod

/-- Cutting a number to a payload wraps it around. -/
theorem wraps_int (h : j ≡ i [ZMOD 2 ^ 60]) : (Value.int j).Wraps i := by
  have cut : (Value.int j).Wraps j := wraps_of_toInt (BitVec.toInt_ofInt j)
  exact ⟨cut.tag, cut.lower, cut.upper, cut.congruent.trans h⟩

theorem Wraps.unique (h : v.Wraps i) (h' : v'.Wraps i) : v = v' := by
  have congruent := h.congruent.trans h'.congruent.symm
  have := h.lower
  have := h.upper
  have := h'.lower
  have := h'.upper
  refine eq_of_number (h.tag.trans h'.tag.symm) ?_
  unfold Int.ModEq at congruent
  omega

/-- The value tells whether `p` holds: it is the integer one if so, and zero if not. -/
def Tells (v : Value) (p : Prop) : Prop := p ∧ v = .int 1 ∨ ¬ p ∧ v = .int 0

theorem tells_truth {b : Bool} (h : b = true ↔ p) : (Value.truth b).Tells p := by
  cases b with
  | true => exact .inl ⟨h.mp rfl, rfl⟩
  | false => exact .inr ⟨fun hp => by simpa using h.mpr hp, rfl⟩

theorem Tells.unique (h : v.Tells p) (h' : v'.Tells p) : v = v' := by
  rcases h with ⟨hp, rfl⟩ | ⟨hp, rfl⟩ <;> rcases h' with ⟨hp', rfl⟩ | ⟨hp', rfl⟩
  · rfl
  · exact absurd hp hp'
  · exact absurd hp' hp
  · rfl

/-- A binary digit of the number in two's complement, counted from the lowest.  There is no last
one: the digits of a negative number end in ones, and those of any other number in zeros. -/
def digit (v : Value) (i : Nat) : Bool := v.number / 2 ^ i % 2 = 1

/-- A digit is the lowest one of the payload when it is shifted, with its sign kept. -/
theorem digit_eq (v : Value) (i : Nat) : v.digit i = (v.payload.sshiftRight i).getLsbD 0 := by
  have shifted : v.number / 2 ^ i = (v.payload.sshiftRight i).toInt := by
    rw [BitVec.toInt_sshiftRight, Int.shiftRight_eq_div_pow]
    rfl
  rw [digit, shifted]
  generalize v.payload.sshiftRight i = w
  have signed := BitVec.toInt_eq_toNat_cond w
  rw [BitVec.getLsbD, Nat.testBit_zero, decide_eq_decide]
  split at signed <;> omega

theorem digit_of_lt (v : Value) {i : Nat} (h : i < 60) : v.digit i = v.payload.getLsbD i := by
  rw [digit_eq, BitVec.getLsbD_sshiftRight]
  simp [h]

theorem digit_complement (v : Value) (i : Nat) :
    (Value.mk .int (~~~v.payload)).digit i = !v.digit i := by
  rw [digit_eq, digit_eq]
  simp [← BitVec.not_sshiftRight]

theorem digit_bitAnd (v v' : Value) (i : Nat) :
    (Value.mk .int (v.payload &&& v'.payload)).digit i = (v.digit i && v'.digit i) := by
  rw [digit_eq, digit_eq, digit_eq]
  simp [BitVec.sshiftRight_and_distrib]

theorem digit_bitOr (v v' : Value) (i : Nat) :
    (Value.mk .int (v.payload ||| v'.payload)).digit i = (v.digit i || v'.digit i) := by
  rw [digit_eq, digit_eq, digit_eq]
  simp [BitVec.sshiftRight_or_distrib]

/-- A value is known by its tag and its digits. -/
theorem eq_of_digit (tag : v.tag = v'.tag) (digits : ∀ i, v.digit i = v'.digit i) : v = v' := by
  have payload : v.payload = v'.payload := by
    apply BitVec.eq_of_getLsbD_eq
    intro i hi
    rw [← digit_of_lt v hi, digits, digit_of_lt v' hi]
  cases v
  cases v'
  simp_all

end Value

/-! ## Unary operators -/

namespace UnaryOp

variable {op : UnaryOp} {source v v' : Value} {x x' : Except Fault Value}

def wantsInteger : UnaryOp → Bool
  | negate | complement => true
  | copy | not => false

/-- What the result of a unary operator is to its operand. -/
def Computes (op : UnaryOp) (source v : Value) : Prop :=
  match op with
  | .copy => v = source
  | .not => v.Tells (source.number = 0)
  | .negate => v.Wraps (-source.number)
  | .complement => v.tag = .int ∧ ∀ i, v.digit i = !source.digit i

/-- What comes of a unary operator. -/
inductive Yields (op : UnaryOp) (source : Value) : Except Fault Value → Prop
  | value {v : Value} (integer : op.wantsInteger → source.tag = .int)
    (computes : op.Computes source v) : Yields op source (.ok v)
  | mismatch (wants : op.wantsInteger) (other : source.tag ≠ .int) :
    Yields op source (.error (.tagMismatch (.unary op) source.tag .int))

theorem Computes.unique (h : op.Computes source v) (h' : op.Computes source v') : v = v' := by
  cases op with
  | copy => exact h.trans h'.symm
  | not => exact Value.Tells.unique h h'
  | negate => exact Value.Wraps.unique h h'
  | complement =>
    exact Value.eq_of_digit (h.1.trans h'.1.symm) fun i => (h.2 i).trans (h'.2 i).symm

theorem Yields.unique (h : op.Yields source x) (h' : op.Yields source x') : x = x' := by
  cases h with
  | value integer computes =>
    cases h' with
    | value _ computes' => rw [computes.unique computes']
    | mismatch wants other => exact absurd (integer wants) other
  | mismatch wants other =>
    cases h' with
    | value integer _ => exact absurd (integer wants) other
    | mismatch => rfl

theorem integer_of_int (h : source.tag = .int) : op.integer source = .ok source.payload := if_pos h

theorem integer_of_other (h : source.tag ≠ .int) :
    op.integer source = .error (.tagMismatch (.unary op) source.tag .int) := if_neg h

/-- An operator that makes an integer of an integer. -/
theorem yields_of_integer (wants : op.wantsInteger = true) (f : BitVec 60 → Value)
    (computes : op.Computes source (f source.payload)) :
    op.Yields source ((op.integer source).map f) := by
  by_cases int : source.tag = .int
  · rw [integer_of_int int]
    exact .value (fun _ => int) computes
  · rw [integer_of_other int]
    exact .mismatch wants int

/-- **What comes of a unary operator** when it is applied. -/
theorem yields_apply (op : UnaryOp) (source : Value) : op.Yields source (op.apply source) := by
  cases op with
  | copy => exact .value (by simp [wantsInteger]) rfl
  | not =>
    refine .value (by simp [wantsInteger]) (Value.tells_truth ?_)
    rw [Bool.not_eq_true', ← Bool.not_eq_true, source.isTrue_iff, not_not]
  | negate => exact yields_of_integer rfl _ (Value.wraps_of_toInt BitVec.toInt_neg)
  | complement => exact yields_of_integer rfl _ ⟨rfl, source.digit_complement⟩

end UnaryOp

/-! ## Binary operators -/

namespace BinaryOp

variable {op : BinaryOp} {left right v v' : Value} {x x' : Except Fault Value}

def wantsIntegers : BinaryOp → Bool
  | and | or | equal | notEqual => false
  | _ => true

/-- Does the operator divide by its right operand? -/
def divides : BinaryOp → Bool
  | divide | modulo => true
  | _ => false

theorem wantsIntegers_of_divides (h : op.divides = true) : op.wantsIntegers = true := by
  cases op <;> simp_all [divides, wantsIntegers]

/-- What the result of a binary operator is to its operands. -/
def Computes (op : BinaryOp) (left right v : Value) : Prop :=
  match op with
  | .add => v.Wraps (left.number + right.number)
  | .subtract => v.Wraps (left.number - right.number)
  | .multiply => v.Wraps (left.number * right.number)
  | .divide => v.Wraps (left.number.tdiv right.number)
  | .modulo =>
    v.tag = .int ∧ 0 ≤ v.number ∧ v.number < right.number.natAbs ∧
      v.number ≡ left.number [ZMOD right.number]
  | .and => v.Tells (left.number ≠ 0 ∧ right.number ≠ 0)
  | .or => v.Tells (left.number ≠ 0 ∨ right.number ≠ 0)
  | .equal => v.Tells (left.tag = right.tag ∧ left.number = right.number)
  | .notEqual => v.Tells (¬ (left.tag = right.tag ∧ left.number = right.number))
  | .less => v.Tells (left.number < right.number)
  | .greater => v.Tells (right.number < left.number)
  | .atMost => v.Tells (left.number ≤ right.number)
  | .atLeast => v.Tells (right.number ≤ left.number)
  | .bitAnd => v.tag = .int ∧ ∀ i, v.digit i = (left.digit i && right.digit i)
  | .bitOr => v.tag = .int ∧ ∀ i, v.digit i = (left.digit i || right.digit i)

/-- What comes of a binary operator. -/
inductive Yields (op : BinaryOp) (left right : Value) : Except Fault Value → Prop
  | value {v : Value} (integers : op.wantsIntegers → left.tag = .int ∧ right.tag = .int)
    (nonzero : op.divides → right.number ≠ 0) (computes : op.Computes left right v) :
    Yields op left right (.ok v)
  | mismatch (wants : op.wantsIntegers) (others : ¬ (left.tag = .int ∧ right.tag = .int)) :
    Yields op left right (.error (.tagMismatch (.binary op) left.tag right.tag))
  | byZero (divides : op.divides) (integers : left.tag = .int ∧ right.tag = .int)
    (zero : right.number = 0) : Yields op left right (.error .divisionByZero)

theorem Computes.unique (h : op.Computes left right v) (h' : op.Computes left right v') :
    v = v' := by
  cases op with
  | add | subtract | multiply | divide => exact Value.Wraps.unique h h'
  | modulo =>
    obtain ⟨tag, nonneg, lt, congruent⟩ := h
    obtain ⟨tag', nonneg', lt', congruent'⟩ := h'
    refine Value.eq_of_number (tag.trans tag'.symm) ?_
    -- two remainders differ by a multiple of the divisor, and by less than it
    have multiple : right.number ∣ v'.number - v.number :=
      (congruent.trans congruent'.symm).dvd
    have := Int.eq_zero_of_dvd_of_natAbs_lt_natAbs multiple (by omega)
    omega
  | bitAnd | bitOr =>
    exact Value.eq_of_digit (h.1.trans h'.1.symm) fun i => (h.2 i).trans (h'.2 i).symm
  | _ => exact Value.Tells.unique h h'

theorem Yields.unique (h : op.Yields left right x) (h' : op.Yields left right x') : x = x' := by
  cases h with
  | value integers nonzero computes =>
    cases h' with
    | value _ _ computes' => rw [computes.unique computes']
    | mismatch wants others => exact absurd (integers wants) others
    | byZero divides _ zero => exact absurd zero (nonzero divides)
  | mismatch wants others =>
    cases h' with
    | value integers _ _ => exact absurd (integers wants) others
    | mismatch => rfl
    | byZero _ integers _ => exact absurd integers others
  | byZero divides integers zero =>
    cases h' with
    | value _ nonzero _ => exact absurd zero (nonzero divides)
    | mismatch _ others => exact absurd integers others
    | byZero => rfl

theorem integers_of_int (h : left.tag = .int ∧ right.tag = .int) :
    op.integers left right = .ok (left.payload, right.payload) := if_pos h

theorem integers_of_other (h : ¬ (left.tag = .int ∧ right.tag = .int)) :
    op.integers left right = .error (.tagMismatch (.binary op) left.tag right.tag) := if_neg h

/-- An operator that takes values of any tag. -/
theorem yields_of_any (h : op.wantsIntegers = false) (computes : op.Computes left right v) :
    op.Yields left right (.ok v) :=
  .value (by simp [h]) (fun divides => by simp [wantsIntegers_of_divides divides] at h) computes

/-- An operator that works on any two integers. -/
theorem yields_of_integers (wants : op.wantsIntegers = true) (total : op.divides = false)
    (f : BitVec 60 × BitVec 60 → Value)
    (computes : op.Computes left right (f (left.payload, right.payload))) :
    op.Yields left right ((op.integers left right).map f) := by
  by_cases ints : left.tag = .int ∧ right.tag = .int
  · rw [integers_of_int ints]
    exact .value (fun _ => ints) (by simp [total]) computes
  · rw [integers_of_other ints]
    exact .mismatch wants ints

/-- An operator that works on two integers of which the right one is not zero. -/
theorem yields_of_divides (divides : op.divides = true) (f : BitVec 60 × BitVec 60 → Value)
    (computes : right.number ≠ 0 → op.Computes left right (f (left.payload, right.payload))) :
    op.Yields left right (op.integers left right >>= fun p =>
      if p.2 = 0 then .error .divisionByZero else .ok (f p)) := by
  by_cases ints : left.tag = .int ∧ right.tag = .int
  · rw [integers_of_int ints]
    show op.Yields left right (if right.payload = 0 then _ else _)
    by_cases zero : right.payload = 0
    · rw [if_pos zero]
      exact .byZero divides ints (right.number_eq_zero_iff.mpr zero)
    · rw [if_neg zero]
      have nonzero : right.number ≠ 0 := fun h => zero (right.number_eq_zero_iff.mp h)
      exact .value (fun _ => ints) (fun _ => nonzero) (computes nonzero)
  · rw [integers_of_other ints]
    exact .mismatch (wantsIntegers_of_divides divides) ints

/-- The remainder of two payloads fits a payload. -/
theorem computes_modulo (nonzero : right.number ≠ 0) :
    modulo.Computes left right (.int (left.number % right.number)) := by
  have nonneg := Int.emod_nonneg left.number nonzero
  have lt := Int.emod_lt left.number nonzero
  have number : (Value.int (left.number % right.number)).number = left.number % right.number := by
    have := right.le_number
    have := right.number_lt
    exact Value.number_int (by omega) (by omega)
  unfold Computes
  simp only [number]
  exact ⟨rfl, nonneg, lt, Int.mod_modEq _ _⟩

/-- **What comes of a binary operator** when it is applied. -/
theorem yields_apply (op : BinaryOp) (left right : Value) :
    op.Yields left right (op.apply left right) := by
  cases op with
  | and =>
    refine yields_of_any rfl (Value.tells_truth ?_)
    rw [Bool.and_eq_true, left.isTrue_iff, right.isTrue_iff]
  | or =>
    refine yields_of_any rfl (Value.tells_truth ?_)
    rw [Bool.or_eq_true, left.isTrue_iff, right.isTrue_iff]
  | equal =>
    refine yields_of_any rfl (Value.tells_truth ?_)
    rw [decide_eq_true_iff, Value.eq_iff_number]
  | notEqual =>
    refine yields_of_any rfl (Value.tells_truth ?_)
    rw [decide_eq_true_iff, ne_eq, Value.eq_iff_number]
  | add => exact yields_of_integers rfl rfl _ (Value.wraps_of_toInt (BitVec.toInt_add _ _))
  | subtract => exact yields_of_integers rfl rfl _ (Value.wraps_of_toInt BitVec.toInt_sub)
  | multiply => exact yields_of_integers rfl rfl _ (Value.wraps_of_toInt (BitVec.toInt_mul _ _))
  | divide =>
    exact yields_of_divides rfl (fun p => ⟨.int, p.1.sdiv p.2⟩) fun _ =>
      Value.wraps_of_toInt (BitVec.toInt_sdiv _ _)
  | modulo =>
    exact yields_of_divides rfl (fun p => .int (p.1.toInt % p.2.toInt)) computes_modulo
  | less => exact yields_of_integers rfl rfl _ (Value.tells_truth BitVec.slt_iff_toInt_lt)
  | greater => exact yields_of_integers rfl rfl _ (Value.tells_truth BitVec.slt_iff_toInt_lt)
  | atMost => exact yields_of_integers rfl rfl _ (Value.tells_truth BitVec.sle_iff_toInt_le)
  | atLeast => exact yields_of_integers rfl rfl _ (Value.tells_truth BitVec.sle_iff_toInt_le)
  | bitAnd => exact yields_of_integers rfl rfl _ ⟨rfl, left.digit_bitAnd right⟩
  | bitOr => exact yields_of_integers rfl rfl _ ⟨rfl, left.digit_bitOr right⟩

end BinaryOp

/-! ## In words of 64 bits -/

namespace Value

/-- The number of the value in a word of 64 bits. -/
def wide (v : Value) : Int64 := .ofInt v.number

theorem toInt_wide (v : Value) : v.wide.toInt = v.number := by
  have := v.le_number
  have := v.number_lt
  exact Int64.toInt_ofInt_of_le (by omega) (by omega)

theorem toBitVec_wide (v : Value) : v.wide.toBitVec = v.payload.signExtend 64 :=
  Int64.toBitVec_ofInt v.number

/-- A number that has wrapped around at 64 bits wraps around at 60 as it would have before. -/
theorem wraps_of_bmod {i j : Int} (h : j = i.bmod (2 ^ 64)) : (Value.int j).Wraps i := by
  refine wraps_int ?_
  have same : j % 2 ^ 64 = i % 2 ^ 64 := by
    rw [h]
    exact Int.bmod_emod
  show j % 2 ^ 60 = i % 2 ^ 60
  omega

/-- A payload that was extended to 64 bits is cut to what it was. -/
theorem int_of_signExtend {w : Int64} {p : BitVec 60} (h : w.toBitVec = p.signExtend 64) :
    Value.int w.toInt = ⟨.int, p⟩ := by
  have toInt : w.toInt = p.toInt := by
    rw [← Int64.toInt_toBitVec, h]
    exact BitVec.toInt_signExtend_of_le (by decide)
  rw [toInt]
  exact congrArg (Value.mk .int) BitVec.ofInt_toInt

end Value

/-- A unary operator in words of 64 bits, if its result is an integer that has to be cut. -/
def UnaryOp.wide? (op : UnaryOp) (w : Int64) : Option Int64 :=
  match op with
  | .negate => some (-w)
  | .complement => some (~~~w)
  | _ => none

/-- A binary operator in words of 64 bits, if its result is an integer that has to be cut.  The
remainder of a word operation has the sign of the dividend, so one that is negative is moved on. -/
def BinaryOp.wide? (op : BinaryOp) (left right : Int64) : Option Int64 :=
  match op with
  | .add => some (left + right)
  | .subtract => some (left - right)
  | .multiply => some (left * right)
  | .divide => some (left / right)
  | .modulo =>
    let rest := left % right
    some (if rest < 0 then (if right < 0 then rest - right else rest + right) else rest)
  | .bitAnd => some (left &&& right)
  | .bitOr => some (left ||| right)
  | _ => none

/-- Computing in wider words and cutting the result comes to the same. -/
theorem UnaryOp.eq_of_wide? {op : UnaryOp} {source v : Value} {w : Int64}
    (wide : op.wide? source.wide = some w) (applied : op.apply source = .ok v) :
    v = .int w.toInt := by
  have yields := op.yields_apply source
  rw [applied] at yields
  cases yields with
  | value integer computes =>
    refine computes.unique ?_
    cases op with
    | copy | not => cases wide
    | negate =>
      cases wide
      refine Value.wraps_of_bmod ?_
      rw [Int64.toInt_neg, source.toInt_wide]
    | complement =>
      cases wide
      have extended : (~~~source.wide).toBitVec = (~~~source.payload).signExtend 64 := by
        rw [Int64.toBitVec_not, source.toBitVec_wide, BitVec.signExtend_not (by decide)]
      rw [Value.int_of_signExtend extended]
      exact ⟨rfl, source.digit_complement⟩

/-- The remainder that is moved on is the one that is never negative. -/
theorem toInt_wide_modulo {left right : Value} (nonzero : right.number ≠ 0) {w : Int64}
    (wide : BinaryOp.wide? .modulo left.wide right.wide = some w) :
    w.toInt = left.number % right.number := by
  have rest : (left.wide % right.wide).toInt = left.number.tmod right.number := by
    rw [Int64.toInt_mod, left.toInt_wide, right.toInt_wide]
  have negative : left.wide % right.wide < 0 ↔ left.number.tmod right.number < 0 := by
    rw [Int64.lt_iff_toInt_lt, rest]
    rfl
  have below : right.wide < 0 ↔ right.number < 0 := by
    rw [Int64.lt_iff_toInt_lt, right.toInt_wide]
    rfl
  have nonneg := Int.emod_nonneg left.number nonzero
  have lt := Int.emod_lt left.number nonzero
  have moved := @Int.emod_eq_tmod left.number right.number
  have := right.le_number
  have := right.number_lt
  unfold BinaryOp.wide? at wide
  cases wide
  rw [apply_ite Int64.toInt, apply_ite Int64.toInt, Int64.toInt_sub, Int64.toInt_add, rest,
    right.toInt_wide]
  simp only [negative, below]
  -- the remainder is moved on just when it is negative
  split at moved
  · rw [if_neg (by omega)]
    omega
  · rw [if_pos (by omega)]
    split
    · rw [Int.bmod_eq_of_le (by omega) (by omega)]
      omega
    · rw [Int.bmod_eq_of_le (by omega) (by omega)]
      omega

/-- Computing in wider words and cutting the result comes to the same. -/
theorem BinaryOp.eq_of_wide? {op : BinaryOp} {left right v : Value} {w : Int64}
    (wide : op.wide? left.wide right.wide = some w) (applied : op.apply left right = .ok v) :
    v = .int w.toInt := by
  have yields := op.yields_apply left right
  rw [applied] at yields
  cases yields with
  | value integers nonzero computes =>
    refine computes.unique ?_
    cases op with
    | add =>
      cases wide
      refine Value.wraps_of_bmod ?_
      rw [Int64.toInt_add, left.toInt_wide, right.toInt_wide]
    | subtract =>
      cases wide
      refine Value.wraps_of_bmod ?_
      rw [Int64.toInt_sub, left.toInt_wide, right.toInt_wide]
    | multiply =>
      cases wide
      refine Value.wraps_of_bmod ?_
      rw [Int64.toInt_mul, left.toInt_wide, right.toInt_wide]
    | divide =>
      cases wide
      refine Value.wraps_of_bmod ?_
      rw [Int64.toInt_div, left.toInt_wide, right.toInt_wide]
    | modulo =>
      rw [toInt_wide_modulo (nonzero rfl) wide]
      exact computes_modulo (nonzero rfl)
    | bitAnd =>
      cases wide
      have extended : (left.wide &&& right.wide).toBitVec =
          (left.payload &&& right.payload).signExtend 64 := by
        rw [Int64.toBitVec_and, left.toBitVec_wide, right.toBitVec_wide, BitVec.signExtend_and]
      rw [Value.int_of_signExtend extended]
      exact ⟨rfl, left.digit_bitAnd right⟩
    | bitOr =>
      cases wide
      have extended : (left.wide ||| right.wide).toBitVec =
          (left.payload ||| right.payload).signExtend 64 := by
        rw [Int64.toBitVec_or, left.toBitVec_wide, right.toBitVec_wide, BitVec.signExtend_or]
      rw [Value.int_of_signExtend extended]
      exact ⟨rfl, left.digit_bitOr right⟩
    | _ => cases wide

/-! ## Exactness -/

/-- **Operators compute exactly, and fail where they cannot.**  The outcome of an operator is the
one that `Yields` says.

So the operators that want integers give a value just if all operands are integers and nothing is
divided by zero.  Otherwise they complain about the tags, in the order of the operands, or, of
integers alone, about the division.  A value that they give is the exact result up to a multiple of
`2^60`; the remainder is at least zero and below the size of the divisor; bitwise results are those
of the digits; comparisons are those of the numbers; and values are equal when tag and number are.

The same values come out when operators compute in words of 64 bits and the results are cut. -/
theorem operators_exact :
    (∀ (op : UnaryOp) source x, op.apply source = x ↔ op.Yields source x) ∧
    (∀ (op : BinaryOp) left right x, op.apply left right = x ↔ op.Yields left right x) ∧
    (∀ (op : UnaryOp) source v w, op.wide? source.wide = some w → op.apply source = .ok v →
      v = .int w.toInt) ∧
    (∀ (op : BinaryOp) left right v w, op.wide? left.wide right.wide = some w →
      op.apply left right = .ok v → v = .int w.toInt) := by
  refine ⟨?_, ?_, ?_, ?_⟩
  · intro op source x
    constructor
    · rintro rfl
      exact op.yields_apply source
    · intro yields
      exact (op.yields_apply source).unique yields
  · intro op left right x
    constructor
    · rintro rfl
      exact op.yields_apply left right
    · intro yields
      exact (op.yields_apply left right).unique yields
  · intro op source v w wide applied
    exact UnaryOp.eq_of_wide? wide applied
  · intro op left right v w wide applied
    exact BinaryOp.eq_of_wide? wide applied

/-- The lowest integer divided by minus one is too large by one, so it wraps around to itself, in
words of 64 bits as well. -/
theorem operators_exact_lowest :
    let lowest := Value.int (-2 ^ 59)
    BinaryOp.apply .divide lowest (.int (-1)) = .ok lowest ∧ lowest.Wraps (2 ^ 59) ∧
      BinaryOp.wide? .divide lowest.wide (Value.int (-1)).wide = some (2 ^ 59) ∧
      lowest = .int (2 ^ 59 : Int64).toInt := by
  intro lowest
  obtain ⟨-, exactly, -, cut⟩ := operators_exact
  have wraps : lowest.Wraps (2 ^ 59) :=
    ⟨rfl, by decide, by decide, by decide⟩
  have applied : BinaryOp.apply .divide lowest (.int (-1)) = .ok lowest :=
    (exactly .divide lowest (.int (-1)) (.ok lowest)).mpr
      (.value (fun _ => ⟨rfl, rfl⟩) (fun _ => by decide) wraps)
  have wide : BinaryOp.wide? .divide lowest.wide (Value.int (-1)).wide = some (2 ^ 59) := by
    decide +kernel
  exact ⟨applied, wraps, wide, cut .divide lowest (.int (-1)) lowest (2 ^ 59) wide applied⟩

end MessageMachine
