import MessageMachine.Class

/-!
# Objects

An object is an instance of a class, which it knows by number, with property values of its own.  The
`Population` of a world keeps every object ever created in its slot, so that numbers are never given
out twice; a deleted object stays in its slot but is not found any more.

## The class cache

An object may remember the edition of its class that it saw last.  The cache holds nothing alive: it
counts only while that very edition is alive, and only if the edition is of the object's class.
Otherwise the class is looked up in the directory, and the cache is refreshed.  A cache that leads
to an outdated record counts like any other.
-/

namespace MessageMachine

/-- An instance of a class. -/
structure Object where
  id : ObjectId
  classId : ClassId
  /-- The edition of the class that was seen last. -/
  cache : Option Nat := none
  deleted : Bool := false
  /-- A mark that the keeper of the world may use. -/
  garbage : UInt32 := 0
  properties : Array Property := #[]
  deriving Inhabited

namespace Object

/-- A new instance of a class, with the property values that the class gives. -/
def ofRecord (id : ObjectId) (r : Record) : Object where
  id := id
  classId := r.cls.id
  cache := some r.edition
  properties := r.cls.properties.toArray

/-- Moves the object to another class.  Its properties stay as they are. -/
def setClass (o : Object) (id : ClassId) : Object := { o with classId := id, cache := none }

def dropCache (o : Object) : Object := { o with cache := none }

/-- The cached record, if it still counts. -/
def cachedRecord? (o : Object) (classes : Directory) : Option Record :=
  match o.cache with
  | some edition => (classes.ofEdition? edition).filter fun r => r.cls.id = o.classId
  | none => none

/-- The cached class, if it still counts. -/
def cachedClass? (o : Object) (classes : Directory) : Option Class :=
  (o.cachedRecord? classes).map Record.cls

/-- The record that is the class of the object, and the object with its cache refreshed. -/
def lookUp (o : Object) (classes : Directory) : Option Record × Object :=
  match o.cachedRecord? classes with
  | some r => (some r, o)
  | none =>
    match classes.record? o.classId with
    | some r => (some r, { o with cache := some r.edition })
    | none => (none, o)

/-- The class of the object, and the object with its cache refreshed. -/
def resolve (o : Object) (classes : Directory) : Option Class × Object :=
  ((o.lookUp classes).1.map Record.cls, (o.lookUp classes).2)

/-- The value of a property. -/
def property (o : Object) (index : UInt32) : Except Fault Value :=
  match o.properties[index.toNat]? with
  | some p => .ok p.value
  | none => .error (.propertyOutOfRange index o.properties.size)

/-- The object with the value of a property written. -/
def setProperty (o : Object) (index : UInt32) (value : Value) : Except Fault Object :=
  if h : index.toNat < o.properties.size then
    let p := o.properties[index.toNat]
    .ok { o with properties := o.properties.set index.toNat { p with value } h }
  else .error (.propertyOutOfRange index o.properties.size)

/-- The value of a variable of the object's class, and the object with its cache refreshed. -/
def classVar (o : Object) (classes : Directory) (index : UInt32) : Except Fault Value × Object :=
  match o.lookUp classes with
  | (some r, o') => (r.cls.var index, o')
  | (none, o') => (.error (.unknownClass o.classId), o')

/-- Writes a variable of the object's class.  The object comes back with its cache refreshed. -/
def setClassVar (o : Object) (classes : Directory) (index : UInt32) (value : Value) :
    Except Fault Directory × Object :=
  match o.lookUp classes with
  | (some r, o') => (classes.writeVar r index value, o')
  | (none, o') => (.error (.unknownClass o.classId), o')

end Object

/-- All objects ever created, each in the slot of its number. -/
structure Population where
  slots : Array Object := #[]

namespace Population

/-- The number of objects ever created. -/
def size (p : Population) : Nat := p.slots.size

/-- The object of a number, unless it was deleted. -/
def get? (p : Population) (id : ObjectId) : Option Object :=
  (p.slots[id.number.toNat]?).filter fun o => !o.deleted

/-- Puts a changed object into the slot of `id`. -/
def put (p : Population) (id : ObjectId) (o : Object) : Population :=
  ⟨p.slots.setIfInBounds id.number.toNat o⟩

/-- Changes an object that is not deleted. -/
def update (p : Population) (id : ObjectId) (f : Object → Object) : Population :=
  match p.get? id with
  | some o => p.put id (f o)
  | none => p

/-- Adds an instance of a class, under the next number. -/
def create (p : Population) (r : Record) : ObjectId × Population :=
  let id := ⟨UInt32.ofNat p.slots.size⟩
  (id, ⟨p.slots.push (.ofRecord id r)⟩)

/-- Deletes an object. -/
def delete (p : Population) (id : ObjectId) : Population :=
  p.update id fun o => { o with deleted := true }

/-- Deletes an object, and says whether there was one to delete. -/
def tryDelete (p : Population) (id : ObjectId) : Bool × Population :=
  ((p.get? id).isSome, p.delete id)

/-- The objects that are not deleted, in order of their numbers. -/
def live (p : Population) : List Object := p.slots.toList.filter fun o => !o.deleted

end Population

end MessageMachine
