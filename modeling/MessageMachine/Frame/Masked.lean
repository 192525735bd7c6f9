import MessageMachine.Frame

/-!
# Frames in fixed memory

A frame as it can be laid out in a memory of fixed size: values for as many locals as a frame may
ever have, the number of those that are in use, and a word of 64 bits.  A bit of this word is set as
long as the local with its number has not been written.  No value has to be set aside to say so.

The bits come from shifts, and a shift is defined for distances less than the number of bits only.
What needs a shift is a computation that may be undefined for that reason, an `Option`.
-/

namespace MessageMachine

/-- A word whose bits stand for locals. -/
abbrev Mask := BitVec 64

namespace Mask

/-- A shift to the left, by less than the number of bits. -/
def shiftLeft? (mask : Mask) (distance : Nat) : Option Mask :=
  if distance < 64 then some (mask <<< distance) else none

/-- A shift to the right, by less than the number of bits. -/
def shiftRight? (mask : Mask) (distance : Nat) : Option Mask :=
  if distance < 64 then some (mask >>> distance) else none

/-- The bit of one local. -/
def single? (index : Nat) : Option Mask := shiftLeft? 1 index

/-- The lowest bits, `count` of them.  To have none, all would have to be shifted out, so this is
done without a shift. -/
def lowest? (count : Nat) : Option Mask :=
  if count = 0 then some 0 else shiftRight? (BitVec.allOnes 64) (64 - count)

end Mask

/-- The locals of a running handler, in a memory of fixed size. -/
structure MaskedFrame where
  values : Vector Value Limits.locals
  size : Nat
  size_le : size ≤ Limits.locals
  /-- The locals that were never written. -/
  mask : Mask
  deriving DecidableEq

namespace MaskedFrame

/-- A frame of blank locals, all of them unwritten if writes are tracked. -/
def ofSize (track : Bool) (size : Nat) : Option (Except Fault MaskedFrame) :=
  if h : size ≤ Limits.locals then
    (if track then Mask.lowest? size else some 0).map fun mask =>
      .ok { values := .replicate Limits.locals .nil, size, size_le := h, mask }
  else some (.error (.tooManyLocals size))

/-- Was the local tracked and never written? -/
def isUnwritten (f : MaskedFrame) (index : UInt32) : Option Bool :=
  if index.toNat < f.size then do
    let bit ← Mask.single? index.toNat
    return f.mask &&& bit != 0
  else some false

def get (f : MaskedFrame) (index : UInt32) : Except Fault Value :=
  if h : index.toNat < f.size then
    .ok (getElem f.values index.toNat (Nat.lt_of_lt_of_le h f.size_le))
  else .error (.localOutOfRange index f.size)

/-- Writes a local in place, and says whether that could be done. -/
def set (f : MaskedFrame) (index : UInt32) (value : Value) :
    Option (Except Fault Unit × MaskedFrame) :=
  if h : index.toNat < f.size then do
    let bit ← Mask.single? index.toNat
    return (.ok (),
      { f with
        values := f.values.set index.toNat value (Nat.lt_of_lt_of_le h f.size_le)
        mask := f.mask &&& ~~~bit })
  else some (.error (.localOutOfRange index f.size), f)

end MaskedFrame

end MessageMachine
