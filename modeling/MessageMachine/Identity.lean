/-!
# Numbers that name things

Objects, classes, messages, properties and message parameters are all known by a 32-bit number.
Each kind of number has a type of its own, so that a class can never be looked up where an object
is meant.
-/

namespace MessageMachine

/-- The number of an object, given out in order of creation. -/
structure ObjectId where
  number : UInt32
  deriving DecidableEq, Inhabited

/-- The number under which the directory holds a class. -/
structure ClassId where
  number : UInt32
  deriving DecidableEq, Inhabited

/-- The number of a message: what is sent, and what a class has a handler for. -/
structure MessageId where
  number : UInt32
  deriving DecidableEq, Inhabited

/-- The number of a property slot, the same in every edition of a class. -/
structure PropertyId where
  number : UInt32
  deriving DecidableEq, Inhabited

/-- The number that stands for the name of a message parameter. -/
structure ParameterId where
  number : UInt32
  deriving DecidableEq, Inhabited

instance : ToString ObjectId := ⟨fun id => toString id.number.toNat⟩
instance : ToString ClassId := ⟨fun id => toString id.number.toNat⟩
instance : ToString MessageId := ⟨fun id => toString id.number.toNat⟩
instance : ToString ParameterId := ⟨fun id => toString id.number.toNat⟩

end MessageMachine
