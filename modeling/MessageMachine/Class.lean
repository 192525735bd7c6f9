import MessageMachine.Handler

/-!
# Classes and their directory

A class has handlers, property defaults for its instances, variables that all instances share, and
perhaps a superclass, named by its number.  The `Directory` holds the classes by number and finds
handlers along the superclass chain.

## Editions

Inserting a class under a number that is taken replaces the record.  Each insertion is an *edition*
of its own, numbered in order, so a record that was replaced can be told from the one that took its
place even when the two look alike.  Writing a class variable changes a record but not its edition.

A record lives as long as somebody holds on to it.  The directory does so for the records in it,
and its keeper may do so for any.  A record that is replaced or removed while the keeper holds on
to it is *outdated*: no search of the directory comes upon it, but it lives on for those that
remember its edition.

## Names

The directory also keeps an index from names to numbers.  Several classes may bear one name; the
index then points at the one inserted last.  When a class is removed, or replaced under another
name, the entry of its old name goes, whichever class it points at.
-/

namespace MessageMachine

/-- A property: its number, and its value (in a class, the value that instances start with). -/
structure Property where
  id : PropertyId
  value : Value
  deriving DecidableEq, Inhabited

/-- A class. -/
structure Class where
  id : ClassId
  name : String
  parent : Option ClassId := none
  /-- The variables shared by all instances. -/
  vars : Array Value := #[]
  properties : List Property := []
  /-- The handlers that the class itself defines, at most one for a message. -/
  handlers : List Handler := []

namespace Class

/-- The class with one more handler, which takes the place of an earlier one for its message. -/
def define (c : Class) (h : Handler) : Class :=
  { c with handlers := c.handlers.filter (fun g => g.id ≠ h.id) ++ [h] }

/-- The handler that the class itself defines for a message. -/
def handler? (c : Class) (message : MessageId) : Option Handler :=
  c.handlers.find? fun h => h.id = message

/-- The value of a class variable. -/
def var (c : Class) (index : UInt32) : Except Fault Value :=
  match c.vars[index.toNat]? with
  | some v => .ok v
  | none => .error (.classVarOutOfRange index c.vars.size)

/-- The class with a class variable written. -/
def setVar (c : Class) (index : UInt32) (value : Value) : Except Fault Class :=
  if h : index.toNat < c.vars.size then .ok { c with vars := c.vars.set index.toNat value h }
  else .error (.classVarOutOfRange index c.vars.size)

end Class

/-- A class as the directory holds it, with the number of its edition. -/
structure Record where
  edition : Nat
  cls : Class

namespace Record

/-- What a record keeps when its variables are written. -/
def key (r : Record) : Nat × ClassId := (r.edition, r.cls.id)

/-- `other` once the class of `r` has become `cls`. -/
def overwrite (r : Record) (cls : Class) (other : Record) : Record :=
  if other.key = r.key then { other with cls } else other

end Record

/-- The classes of a world. -/
structure Directory where
  records : List Record := []
  /-- The index from names to numbers. -/
  names : List (String × ClassId) := []
  /-- The number of editions so far, which is the number of the next one. -/
  editions : Nat := 0
  /-- The editions that the keeper of the directory holds on to. -/
  holds : List Nat := []
  /-- The records that were replaced or removed while the keeper held on to them. -/
  outdated : List Record := []

namespace Directory

/-- The record held under a number. -/
def record? (d : Directory) (id : ClassId) : Option Record :=
  d.records.find? fun r => r.cls.id = id

/-- The class held under a number. -/
def get? (d : Directory) (id : ClassId) : Option Class := (d.record? id).map Record.cls

/-- The records that are alive. -/
def living (d : Directory) : List Record := d.records ++ d.outdated

/-- The record of an edition, as long as it is alive. -/
def ofEdition? (d : Directory) (edition : Nat) : Option Record :=
  d.living.find? fun r => r.edition = edition

/-- The keeper holds on to an edition from now on. -/
def hold (d : Directory) (edition : Nat) : Directory := { d with holds := edition :: d.holds }

/-- The keeper lets go of an edition, which dies if the directory does not have it. -/
def release (d : Directory) (edition : Nat) : Directory :=
  { d with
    holds := d.holds.filter (· ≠ edition)
    outdated := d.outdated.filter fun r => r.edition ≠ edition }

def size (d : Directory) : Nat := d.records.length

/-- The class that the index of names points at. -/
def byName? (d : Directory) (name : String) : Option Class :=
  match d.names.find? fun entry => entry.1 = name with
  | some entry => d.get? entry.2
  | none => none

/-- The index of names without the entry of `name`. -/
def namesWithout (d : Directory) (name : String) : List (String × ClassId) :=
  d.names.filter fun entry => entry.1 ≠ name

/-- The records without the one under `id`. -/
def recordsWithout (d : Directory) (id : ClassId) : List Record :=
  d.records.filter fun r => r.cls.id ≠ id

/-- The outdated records once the record under `id` has lost its place. -/
def outdatedWith (d : Directory) (id : ClassId) : List Record :=
  d.outdated ++ d.records.filter fun r => r.cls.id = id && r.edition ∈ d.holds

/-- Takes `d` without the entry of `name` in the index. -/
def forgetName (d : Directory) (name : String) : Directory :=
  { d with names := d.namesWithout name }

/-- The record that a class gets when it is inserted next. -/
def nextRecord (d : Directory) (c : Class) : Record := ⟨d.editions, c⟩

/-- The directory with a new edition of a class.  An edition that it replaces loses its name, if the
name is another. -/
def insert (d : Directory) (c : Class) : Directory :=
  let d :=
    match d.get? c.id with
    | some old => if old.name = c.name then d else d.forgetName old.name
    | none => d
  { d with
    records := d.recordsWithout c.id ++ [d.nextRecord c]
    names := d.namesWithout c.name ++ [(c.name, c.id)]
    editions := d.editions + 1
    outdated := d.outdatedWith c.id }

/-- The directory without a class, and without its name. -/
def remove (d : Directory) (id : ClassId) : Directory :=
  match d.get? id with
  | some c =>
    { d.forgetName c.name with records := d.recordsWithout id, outdated := d.outdatedWith id }
  | none => d

/-- Looks for a handler in at most `steps` classes from `id` upwards. -/
def findUpwards (d : Directory) (message : MessageId) : (steps : Nat) → ClassId →
    Option (Class × Handler)
  | 0, _ => none
  | steps + 1, id =>
    match d.get? id with
    | none => none
    | some c =>
      match c.handler? message with
      | some h => some (c, h)
      | none =>
        match c.parent with
        | some parent => findUpwards d message steps parent
        | none => none

/-- The handler for a message, in the first class on the superclass chain that has one, with that
class.  A chain longer than the limit counts as one without end. -/
def findHandler (d : Directory) (id : ClassId) (message : MessageId) : Option (Class × Handler) :=
  d.findUpwards message Limits.classChain id

/-- The directory once the class of `r` has become `cls`, wherever the record is. -/
def overwrite (d : Directory) (r : Record) (cls : Class) : Directory :=
  { d with
    records := d.records.map (r.overwrite cls)
    outdated := d.outdated.map (r.overwrite cls) }

/-- The directory with a variable of a record written. -/
def writeVar (d : Directory) (r : Record) (index : UInt32) (value : Value) :
    Except Fault Directory :=
  (r.cls.setVar index value).map (d.overwrite r)

/-- The directory with a variable written of the class held under a number. -/
def setVar (d : Directory) (id : ClassId) (index : UInt32) (value : Value) :
    Except Fault Directory :=
  match d.record? id with
  | none => .error (.unknownClass id)
  | some r => d.writeVar r index value

end Directory

end MessageMachine
