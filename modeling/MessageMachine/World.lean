import MessageMachine.Object
import MessageMachine.Clock
import MessageMachine.Journal

/-!
# The world of a run

A `World` is everything that running code can reach or change outside of its own frame: objects and
classes, the queue of posts, the clock and the journal.

## Operands

An operand names a local, a property of the receiver, a variable of the receiver's class, or a
constant.  `World.read` and `World.write` find the receiver by its number, and only for the kinds
that need it; `Object.read` and `Object.write` do the same for an object at hand.  Reading or
writing a class variable may refresh the receiver's class cache, also when it fails.  A constant
cannot be written.
-/

namespace MessageMachine

namespace Object

/-- The value of an operand for an object at hand. -/
def read (o : Object) (classes : Directory) (frame : Frame) (kind : OperandKind) (data : UInt32) :
    Except Fault Value × Object :=
  match kind with
  | .localVar => (frame.get data, o)
  | .constant => (.ok (.ofPacked data), o)
  | .property => (o.property data, o)
  | .classVar => o.classVar classes data

/-- What writing leaves behind for an object at hand. -/
structure Written where
  frame : Frame
  object : Object
  classes : Directory

/-- Writes an operand for an object at hand.  The second component is the object after a failure. -/
def write (o : Object) (classes : Directory) (frame : Frame) (kind : OperandKind) (data : UInt32)
    (value : Value) : Except Fault Written × Object :=
  match kind with
  | .localVar => ((frame.set data value).map fun frame => ⟨frame, o, classes⟩, o)
  | .constant => (.error .constantNotStorable, o)
  | .property => ((o.setProperty data value).map fun o' => ⟨frame, o', classes⟩, o)
  | .classVar =>
    let (result, o') := o.setClassVar classes data value
    (result.map fun classes => ⟨frame, o', classes⟩, o')

end Object

/-- What running code can reach. -/
structure World where
  objects : Population := {}
  classes : Directory := {}
  posts : PostQueue
  clock : Clock := {}
  journal : Journal := #[]

namespace World

/-- The world with one more journal entry. -/
def log (w : World) (e : Entry) : World := { w with journal := w.journal.push e }

/-- Puts a changed object into its slot. -/
def putObject (w : World) (id : ObjectId) (o : Object) : World :=
  { w with objects := w.objects.put id o }

/-- Adds an instance of a class, if the class is in the directory. -/
def create (w : World) (id : ClassId) : Option (ObjectId × World) :=
  (w.classes.record? id).map fun r =>
    let (object, objects) := w.objects.create r
    (object, { w with objects })

/-- The value of an operand of a handler that runs for `receiver`. -/
def read (w : World) (receiver : ObjectId) (frame : Frame) (kind : OperandKind) (data : UInt32) :
    Except Fault Value × World :=
  match kind with
  | .localVar => (frame.get data, w)
  | .constant => (.ok (.ofPacked data), w)
  | .property =>
    match w.objects.get? receiver with
    | some o => (o.property data, w)
    | none => (.error (.unknownObject receiver), w)
  | .classVar =>
    match w.objects.get? receiver with
    | some o =>
      let (result, o') := o.classVar w.classes data
      (result, w.putObject receiver o')
    | none => (.error (.unknownObject receiver), w)

/-- Writes an operand of a handler that runs for `receiver`.  On success the frame is given back. -/
def write (w : World) (receiver : ObjectId) (frame : Frame) (kind : OperandKind) (data : UInt32)
    (value : Value) : Except Fault Frame × World :=
  match kind with
  | .localVar => (frame.set data value, w)
  | .constant => (.error .constantNotStorable, w)
  | .property =>
    match w.objects.get? receiver with
    | some o =>
      match o.setProperty data value with
      | .ok o' => (.ok frame, w.putObject receiver o')
      | .error f => (.error f, w)
    | none => (.error (.unknownObject receiver), w)
  | .classVar =>
    match w.objects.get? receiver with
    | some o =>
      match o.setClassVar w.classes data value with
      | (.ok classes, o') => (.ok frame, { w.putObject receiver o' with classes })
      | (.error f, o') => (.error f, w.putObject receiver o')
    | none => (.error (.unknownObject receiver), w)

/-- As `read`, for a receiver that is found beforehand, whatever the kind of the operand. -/
def readResident (w : World) (receiver : ObjectId) (frame : Frame) (kind : OperandKind)
    (data : UInt32) : Option (Except Fault Value × World) :=
  (w.objects.get? receiver).map fun o =>
    let (result, o') := o.read w.classes frame kind data
    (result, w.putObject receiver o')

/-- As `write`, for a receiver that is found beforehand, whatever the kind of the operand. -/
def writeResident (w : World) (receiver : ObjectId) (frame : Frame) (kind : OperandKind)
    (data : UInt32) (value : Value) : Option (Except Fault Frame × World) :=
  (w.objects.get? receiver).map fun o =>
    match o.write w.classes frame kind data value with
    | (.ok done, _) =>
      (.ok done.frame, { w.putObject receiver done.object with classes := done.classes })
    | (.error f, o') => (.error f, w.putObject receiver o')

/-- Deletes an object. -/
def delete (w : World) (id : ObjectId) : World := { w with objects := w.objects.delete id }

/-- Changes an object that is not deleted. -/
def update (w : World) (id : ObjectId) (f : Object → Object) : World :=
  { w with objects := w.objects.update id f }

end World

end MessageMachine
