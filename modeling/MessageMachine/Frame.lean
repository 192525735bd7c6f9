import MessageMachine.Fault

/-!
# Frames

A frame holds the locals of one running handler.  A local that was never written reads as nil.  A
frame may be told to remember which locals these are: a slot's `written` flag is kept beside its
value, so every value, nil included, can be told from a local that was never written.
-/

namespace MessageMachine

/-- A local: its value, and whether it counts as written. -/
structure Slot where
  value : Value
  written : Bool
  deriving DecidableEq, Inhabited

/-- The locals of a running handler. -/
structure Frame where
  slots : Array Slot
  size_le : slots.size ≤ Limits.locals
  deriving DecidableEq

namespace Frame

/-- A local before its first write.  Unless writes are tracked it counts as written. -/
def blank (track : Bool) : Slot := ⟨.nil, !track⟩

/-- A frame of blank locals. -/
def ofSize (track : Bool) (size : Nat) : Except Fault Frame :=
  if h : size ≤ Limits.locals then .ok ⟨Array.replicate size (blank track), by simpa using h⟩
  else .error (.tooManyLocals size)

def size (f : Frame) : Nat := f.slots.size

def values (f : Frame) : List Value := f.slots.toList.map Slot.value

/-- Was the local tracked and never written? -/
def isUnwritten (f : Frame) (index : UInt32) : Bool :=
  match f.slots[index.toNat]? with
  | some slot => !slot.written
  | none => false

def get (f : Frame) (index : UInt32) : Except Fault Value :=
  match f.slots[index.toNat]? with
  | some slot => .ok slot.value
  | none => .error (.localOutOfRange index f.size)

def set (f : Frame) (index : UInt32) (value : Value) : Except Fault Frame :=
  if h : index.toNat < f.slots.size then
    .ok ⟨f.slots.set index.toNat ⟨value, true⟩ h, by simpa using f.size_le⟩
  else .error (.localOutOfRange index f.size)

end Frame

end MessageMachine
