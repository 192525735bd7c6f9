import MessageMachine.Proofs.Sharing

/-!
# Storage behind operands

A local, a property and a class variable are *cells*.  An operand names a cell, or none if it is a
constant or a variable of a class that cannot be found for want of the receiver.  To read an operand
is to read its cell (`World.read_eq`), and a write succeeds just if a read does.  A write puts its
value into one cell (`World.content_write`).  All operands that name this cell read the value from
then on, and all others read what they read before.

Several operands may name one cell.  The cell of a class variable belongs to the class, so it is
shared by all instances, whichever way their caches lead to the class.

Where the receiver is found beforehand, whatever the kind of the operand, nothing is different, as
long as there is a receiver to be found.
-/

namespace MessageMachine

/-! ## Getting and setting -/

/-- The elements of an array after the one at `index` was set. -/
theorem getElem?_set_word {α : Type} {xs : Array α} {index : UInt32} (lt : index.toNat < xs.size)
    (x : α) (i : UInt32) :
    (xs.set index.toNat x lt)[i.toNat]? = if i = index then some x else xs[i.toNat]? := by
  rw [Array.getElem?_set]
  by_cases same : i = index
  · rw [if_pos (congrArg UInt32.toNat same.symm), if_pos same]
  · rw [if_neg fun n => same (UInt32.toNat_inj.mp n.symm), if_neg same]

/-- Locals after one of them was written. -/
theorem Frame.get_of_set {f f' : Frame} {index : UInt32} {value : Value}
    (set : f.set index value = .ok f') (i : UInt32) :
    f'.get i = if i = index then .ok value else f.get i := by
  unfold Frame.set at set
  split at set
  · cases set
    simp only [Frame.get, Frame.size, getElem?_set_word, Array.size_set]
    by_cases same : i = index <;> simp [same]
  · cases set

/-- A local can be written just if it can be read. -/
theorem Frame.set_outcome (f : Frame) (index : UInt32) (value : Value) :
    Outcomes (fun _ _ => True) (f.get index) (f.set index value) := by
  unfold Frame.get Frame.set
  by_cases lt : index.toNat < f.slots.size
  · rw [Array.getElem?_eq_getElem lt, dif_pos lt]
    exact .ok trivial
  · rw [Array.getElem?_eq_none (Nat.le_of_not_lt lt), dif_neg lt]
    exact .error _

namespace Object

/-- Properties after one of them was written. -/
theorem property_of_setProperty {o o' : Object} {index : UInt32} {value : Value}
    (set : o.setProperty index value = .ok o') (i : UInt32) :
    o'.property i = if i = index then .ok value else o.property i := by
  unfold setProperty at set
  split at set
  · cases set
    simp only [property, getElem?_set_word, Array.size_set]
    by_cases same : i = index <;> simp [same]
  · cases set

/-- A property can be written just if it can be read. -/
theorem setProperty_outcome (o : Object) (index : UInt32) (value : Value) :
    Outcomes (fun _ _ => True) (o.property index) (o.setProperty index value) := by
  unfold property setProperty
  by_cases lt : index.toNat < o.properties.size
  · rw [Array.getElem?_eq_getElem lt, dif_pos lt]
    exact .ok trivial
  · rw [Array.getElem?_eq_none (Nat.le_of_not_lt lt), dif_neg lt]
    exact .error _

end Object

namespace Class

/-- Variables after one of them was written. -/
theorem var_of_setVar {c c' : Class} {index : UInt32} {value : Value}
    (set : c.setVar index value = .ok c') :
    c'.id = c.id ∧ ∀ i, c'.var i = if i = index then .ok value else c.var i := by
  unfold setVar at set
  split at set
  · cases set
    refine ⟨rfl, fun i => ?_⟩
    simp only [var, getElem?_set_word, Array.size_set]
    by_cases same : i = index <;> simp [same]
  · cases set

/-- A variable can be written just if it can be read. -/
theorem setVar_outcome (c : Class) (index : UInt32) (value : Value) :
    Outcomes (fun _ _ => True) (c.var index) (c.setVar index value) := by
  unfold var setVar
  by_cases lt : index.toNat < c.vars.size
  · rw [Array.getElem?_eq_getElem lt, dif_pos lt]
    exact .ok trivial
  · rw [Array.getElem?_eq_none (Nat.le_of_not_lt lt), dif_neg lt]
    exact .error _

end Class

/-- Writing a record that is found under a number writes the class under that number, and leaves all
others as they are. -/
theorem Directory.get?_overwrite {d : Directory} {id : ClassId} {r : Record} {cls : Class}
    (found : d.record? id = some r) (number : cls.id = r.cls.id) (id' : ClassId) :
    (d.overwrite r cls).get? id' = if id' = id then some cls else d.get? id' := by
  rw [get?, d.record?_overwrite number, get?]
  split
  · rename_i this
    rw [this, found]
    exact congrArg some (Record.overwrite_of_key rfl)
  · rename_i other
    cases found' : d.record? id' with
    | none => rfl
    | some r' =>
      have ne : r'.cls.id ≠ r.cls.id := by
        rw [id_of_record? found, id_of_record? found']
        exact other
      rw [Option.map_some, Record.overwrite_of_ne ne]

/-! ## Cells -/

/-- Where a value is stored. -/
inductive Cell where
  | localVar (index : UInt32)
  | property (object : ObjectId) (index : UInt32)
  | classVar (cls : ClassId) (index : UInt32)
  deriving DecidableEq

namespace World

/-- What is stored in a cell, or why there is no such cell. -/
def content (w : World) (frame : Frame) : Cell → Except Fault Value
  | .localVar index => frame.get index
  | .property object index =>
    match w.objects.get? object with
    | some o => o.property index
    | none => .error (.unknownObject object)
  | .classVar cls index =>
    match w.classes.get? cls with
    | some c => c.var index
    | none => .error (.unknownClass cls)

/-- The cell that an operand names. -/
def cell? (w : World) (receiver : ObjectId) (kind : OperandKind) (data : UInt32) : Option Cell :=
  match kind with
  | .localVar => some (.localVar data)
  | .property => some (.property receiver data)
  | .classVar => (w.objects.get? receiver).map fun o => .classVar o.classId data
  | .constant => none

variable {w : World} {receiver : ObjectId} {frame : Frame} {kind : OperandKind} {data : UInt32}

/-- To read an operand is to read its cell. -/
theorem read_eq (current : w.objects.Current w.classes) :
    (w.read receiver frame kind data).1 =
      match w.cell? receiver kind data with
      | some cell => w.content frame cell
      | none =>
        if kind = .constant then .ok (.ofPacked data) else .error (.unknownObject receiver) := by
  unfold read cell?
  cases kind with
  | localVar => rfl
  | constant => rfl
  | property =>
    dsimp only [content]
    cases w.objects.get? receiver <;> rfl
  | classVar =>
    dsimp only [content]
    cases found : w.objects.get? receiver with
    | none => rfl
    | some o =>
      dsimp only [Option.map_some]
      rw [o.classVar_eq, (current receiver o found).lookUp_fst, Directory.get?]
      cases w.classes.record? o.classId <;> rfl

/-- An operand names a cell by the class of its receiver at most. -/
theorem cell?_congr {w' : World}
    (classIds : ∀ id,
      (w'.objects.get? id).map Object.classId = (w.objects.get? id).map Object.classId)
    (receiver : ObjectId) (kind : OperandKind) (data : UInt32) :
    w'.cell? receiver kind data = w.cell? receiver kind data := by
  unfold cell?
  cases kind with
  | classVar =>
    have same := congrArg (Option.map fun cls => Cell.classVar cls data) (classIds receiver)
    simpa only [Option.map_map, Function.comp_def] using same
  | _ => rfl

variable {o : Object} (found : w.objects.get? receiver = some o)

include found

/-- An object that is put back as it was is no change. -/
theorem putObject_of_get? : w.putObject receiver o = w := by
  obtain ⟨slot, -⟩ := Option.filter_eq_some_iff.mp found
  obtain ⟨lt, slot⟩ := Array.getElem?_eq_some_iff.mp slot
  have same : w.objects.put receiver o = w.objects := by
    unfold Population.put
    rw [Array.setIfInBounds_def, dif_pos lt, ← slot, Array.set_getElem_self]
  rw [putObject, same]

variable {o' : Object} (deleted : o'.deleted = o.deleted)

include deleted

/-- What is stored when an object was put back: its own properties are as it says. -/
theorem content_putObject (frame : Frame) (cell : Cell) :
    (w.putObject receiver o').content frame cell =
      match cell with
      | .property object index =>
        if object = receiver then o'.property index else w.content frame cell
      | _ => w.content frame cell := by
  cases cell with
  | property object index =>
    dsimp only [content, putObject]
    by_cases same : object = receiver
    · rw [same, Population.get?_put found deleted, if_pos rfl]
    · rw [Population.get?_put_of_ne _ same, if_neg same]
  | _ => rfl

/-- An object of the same class that was put back leads all operands to the same cells. -/
theorem cell?_putObject (classId : o'.classId = o.classId) (r : ObjectId) (kind : OperandKind)
    (data : UInt32) : (w.putObject receiver o').cell? r kind data = w.cell? r kind data := by
  refine cell?_congr (fun id => ?_) r kind data
  dsimp only [putObject]
  by_cases this : id = receiver
  · rw [this, Population.get?_put found deleted, found]
    exact congrArg some classId
  · rw [Population.get?_put_of_ne _ this]

omit deleted in
/-- What is stored when a property was written. -/
theorem content_of_setProperty {value : Value} (set : o.setProperty data value = .ok o')
    (frame : Frame) (cell : Cell) :
    (w.putObject receiver o').content frame cell =
      if cell = .property receiver data then .ok value else w.content frame cell := by
  rw [content_putObject found (Object.kept_of_setProperty set).2.1]
  cases cell with
  | localVar i => simp
  | classVar id i => simp
  | property id i =>
    by_cases this : id = receiver
    · simp [this, content, found, Object.property_of_setProperty set]
    · simp [this]

omit deleted in
/-- What is stored when a class variable was written, by way of an object whose
cache was refreshed. -/
theorem content_of_overwrite {value : Value} {r : Record} {cls : Class}
    (held : w.classes.record? o.classId = some r) (set : r.cls.setVar data value = .ok cls)
    (frame : Frame) (cell : Cell) :
    ({ w.putObject receiver (o.lookUp w.classes).2 with
        classes := w.classes.overwrite r cls } : World).content frame cell =
      if cell = .classVar o.classId data then .ok value else w.content frame cell := by
  obtain ⟨cache, looked⟩ := o.lookUp_snd w.classes
  have deleted : (o.lookUp w.classes).2.deleted = o.deleted := by rw [looked]
  have property (i : UInt32) : (o.lookUp w.classes).2.property i = o.property i := by
    rw [looked]
    rfl
  cases cell with
  | localVar i => rfl
  | property id i =>
    refine (content_putObject found deleted frame (.property id i)).trans ?_
    by_cases this : id = receiver
    · simp [this, content, found, property]
    · simp [this]
  | classVar id i =>
    obtain ⟨number, vars⟩ := Class.var_of_setVar set
    dsimp only [content]
    rw [Directory.get?_overwrite held number]
    by_cases this : id = o.classId
    · simp [this, Directory.get?, held, vars]
    · simp [this]

end World

/-! ## Writing a cell -/

namespace World

variable {w w' : World} {receiver : ObjectId} {frame frame' : Frame} {kind : OperandKind}
  {data : UInt32} {value : Value}

/-- An operand other than a constant can be written just if it can be read. -/
theorem write_outcome (storable : kind ≠ .constant) :
    Outcomes (fun _ _ => True) (w.read receiver frame kind data).1
      (w.write receiver frame kind data value).1 := by
  unfold read write
  cases kind with
  | constant => exact absurd rfl storable
  | localVar => exact frame.set_outcome data value
  | property =>
    dsimp only
    cases w.objects.get? receiver with
    | none => exact .error _
    | some o =>
      dsimp only
      have outcome := o.setProperty_outcome data value
      generalize o.property data = x at outcome
      generalize o.setProperty data value = y at outcome
      cases outcome with
      | ok _ => exact .ok trivial
      | error f => exact .error f
  | classVar =>
    dsimp only
    cases w.objects.get? receiver with
    | none => exact .error _
    | some o =>
      dsimp only
      rw [o.classVar_eq, o.setClassVar_eq]
      cases (o.lookUp w.classes).1 with
      | none => exact .error _
      | some r =>
        have outcome := r.cls.setVar_outcome data value
        dsimp only [Directory.writeVar]
        generalize r.cls.var data = x at outcome
        generalize r.cls.setVar data value = y at outcome
        cases outcome with
        | ok _ => exact .ok trivial
        | error f => exact .error f

/-- A write that fails leaves everything as it was but caches. -/
theorem spared_of_write {f : Fault}
    (write : w.write receiver frame kind data value = (.error f, w')) :
    w' = { w with objects := w'.objects } ∧ w'.objects.uncached = w.objects.uncached := by
  unfold World.write at write
  cases kind with
  | localVar =>
    have same : w = w' := congrArg Prod.snd write
    exact same ▸ ⟨rfl, rfl⟩
  | constant =>
    cases write
    exact ⟨rfl, rfl⟩
  | property =>
    dsimp only at write
    cases found : w.objects.get? receiver with
    | none =>
      rw [found] at write
      cases write
      exact ⟨rfl, rfl⟩
    | some o =>
      rw [found] at write
      dsimp only at write
      cases set : o.setProperty data value with
      | ok o' =>
        rw [set] at write
        cases write
      | error g =>
        rw [set] at write
        cases write
        exact ⟨rfl, rfl⟩
  | classVar =>
    dsimp only at write
    cases found : w.objects.get? receiver with
    | none =>
      rw [found] at write
      cases write
      exact ⟨rfl, rfl⟩
    | some o =>
      rw [found] at write
      dsimp only at write
      have cache : (o.setClassVar w.classes data value).2.dropCache = o.dropCache := by
        rw [o.setClassVar_eq]
        exact o.dropCache_lookUp w.classes
      generalize o.setClassVar w.classes data value = outcome at write cache
      match outcome with
      | (.ok classes, o') => cases write
      | (.error g, o') =>
        cases write
        exact ⟨rfl, Population.uncached_put_of_get? found cache⟩

/-- **A write puts its value into the cell of its operand**, and leaves all other cells as they are.
Operands name the same cells as before, and caches stay current. -/
theorem content_write (current : w.objects.Current w.classes)
    (write : w.write receiver frame kind data value = (.ok frame', w')) :
    ∃ cell, w.cell? receiver kind data = some cell ∧ w'.objects.Current w'.classes ∧
      (∀ r k d, w'.cell? r k d = w.cell? r k d) ∧
      ∀ c, w'.content frame' c = if c = cell then .ok value else w.content frame c := by
  unfold World.write at write
  cases kind with
  | constant => cases write
  | localVar =>
    have set : frame.set data value = .ok frame' := congrArg Prod.fst write
    have same : w = w' := congrArg Prod.snd write
    subst same
    refine ⟨.localVar data, rfl, current, fun _ _ _ => rfl, fun c => ?_⟩
    cases c with
    | localVar i => simpa [content] using Frame.get_of_set set i
    | property id i => simp [content]
    | classVar id i => simp [content]
  | property =>
    dsimp only at write
    cases found : w.objects.get? receiver with
    | none =>
      rw [found] at write
      cases write
    | some o =>
      rw [found] at write
      dsimp only at write
      cases set : o.setProperty data value with
      | error f =>
        rw [set] at write
        cases write
      | ok o' =>
        rw [set] at write
        cases write
        obtain ⟨classId, deleted, cache⟩ := Object.kept_of_setProperty set
        have kept : o'.Current w.classes := by
          rw [Object.current_iff_lookUp, Object.lookUp_congr cache classId, classId]
          exact (current receiver o found).lookUp_fst
        exact ⟨.property receiver data, rfl, current.put found deleted kept,
          cell?_putObject found deleted classId, content_of_setProperty found set frame⟩
  | classVar =>
    dsimp only at write
    cases found : w.objects.get? receiver with
    | none =>
      rw [found] at write
      cases write
    | some o =>
      have now := current receiver o found
      rw [found] at write
      dsimp only at write
      rw [o.setClassVar_eq, now.lookUp_fst] at write
      cases held : w.classes.record? o.classId with
      | none =>
        rw [held] at write
        cases write
      | some r =>
        rw [held] at write
        dsimp only at write
        cases set : w.classes.writeVar r data value with
        | error f =>
          rw [set] at write
          cases write
        | ok classes =>
          rw [set] at write
          cases write
          obtain ⟨cls, written, number, rfl⟩ := Directory.exists_of_writeVar set
          obtain ⟨cache, looked⟩ := o.lookUp_snd w.classes
          have deleted : (o.lookUp w.classes).2.deleted = o.deleted := by rw [looked]
          have classId : (o.lookUp w.classes).2.classId = o.classId := by rw [looked]
          have current' : (w.objects.put receiver (o.lookUp w.classes).2).Current
              (w.classes.overwrite r cls) := fun id o' found' =>
            (current.put found deleted now.refreshed id o' found').overwrite number
          exact ⟨.classVar o.classId data, by simp [cell?, found], current',
            cell?_putObject found deleted classId, content_of_overwrite found held written frame⟩

end World

/-! ## A receiver found beforehand -/

namespace World

variable {w : World} {receiver : ObjectId} {o : Object} {frame : Frame} {kind : OperandKind}
  {data : UInt32} {value : Value}

theorem readResident_of_get? (found : w.objects.get? receiver = some o) :
    w.readResident receiver frame kind data = some (w.read receiver frame kind data) := by
  have same : w.putObject receiver o = w := putObject_of_get? found
  unfold readResident read
  rw [found, Option.map_some]
  cases kind with
  | localVar | constant | property => exact congrArg (fun w => some (_, w)) same
  | classVar => rfl

theorem writeResident_of_get? (found : w.objects.get? receiver = some o) :
    w.writeResident receiver frame kind data value =
      some (w.write receiver frame kind data value) := by
  have same : w.putObject receiver o = w := putObject_of_get? found
  unfold writeResident write
  rw [found, Option.map_some]
  dsimp only [Object.write]
  cases kind with
  | constant => exact congrArg (fun w => some (_, w)) same
  | localVar =>
    dsimp only
    cases frame.set data value with
    | ok f => exact congrArg (fun w => some (_, w)) same
    | error f => exact congrArg (fun w => some (_, w)) same
  | property =>
    dsimp only
    cases o.setProperty data value with
    | ok o' => rfl
    | error f => exact congrArg (fun w => some (_, w)) same
  | classVar =>
    dsimp only
    generalize o.setClassVar w.classes data value = outcome
    match outcome with
    | (.ok classes, o') => rfl
    | (.error f, o') => rfl

/-- Locals and constants have nothing to do with objects. -/
theorem read_of_objectless (objectless : kind = .localVar ∨ kind = .constant) (o : Object) :
    (w.read receiver frame kind data).2 = w ∧
      o.read w.classes frame kind data = ((w.read receiver frame kind data).1, o) ∧
      (w.write receiver frame kind data value).2 = w ∧
      (o.write w.classes frame kind data value).2 = o ∧
      (o.write w.classes frame kind data value).1 =
        (w.write receiver frame kind data value).1.map fun frame => ⟨frame, o, w.classes⟩ := by
  rcases objectless with rfl | rfl <;> exact ⟨rfl, rfl, rfl, rfl, rfl⟩

end World

/-! ## The laws of operands -/

namespace World

variable (w : World) (current : w.objects.Current w.classes) (receiver : ObjectId) (frame : Frame)
  (kind : OperandKind) (data : UInt32) (value : Value)

include current

/-- **Operands obey the laws of storage.**  Let the caches of all objects be current: each is
empty, or the record is dead that it remembers, or it leads to the record that the directory holds
for the class.

A receiver that is there may be found beforehand: results and worlds are the same.  Locals and
constants are the same for every receiver, there or not, and for every object at hand.

An operand that is not a constant can be written just if it can be read, and otherwise fails for the
same reason.  When it was written, there is one cell that holds the value, and all other cells hold
what they held before; so all operands of all receivers that name this cell read the value, and all
others read as before.  In particular a class variable is written for all objects of its class at
once, and read as before by all objects of other classes.

When a write fails, caches at most are different.  A constant cannot be written. -/
theorem storage_laws :
    (∀ o, w.objects.get? receiver = some o →
      w.readResident receiver frame kind data = some (w.read receiver frame kind data) ∧
      w.writeResident receiver frame kind data value =
        some (w.write receiver frame kind data value)) ∧
    (kind = .localVar ∨ kind = .constant → ∀ o : Object,
      (w.read receiver frame kind data).2 = w ∧
      o.read w.classes frame kind data = ((w.read receiver frame kind data).1, o) ∧
      (w.write receiver frame kind data value).2 = w ∧
      (o.write w.classes frame kind data value).2 = o ∧
      (o.write w.classes frame kind data value).1 =
        (w.write receiver frame kind data value).1.map fun frame => ⟨frame, o, w.classes⟩) ∧
    (kind ≠ .constant →
      ((∃ frame', (w.write receiver frame kind data value).1 = .ok frame') ↔
        ∃ v, (w.read receiver frame kind data).1 = .ok v) ∧
      ∀ f, (w.write receiver frame kind data value).1 = .error f ↔
        (w.read receiver frame kind data).1 = .error f) ∧
    (∀ frame' w', w.write receiver frame kind data value = (.ok frame', w') →
      ∃ cell, w.cell? receiver kind data = some cell ∧
        (∀ c, w'.content frame' c = if c = cell then .ok value else w.content frame c) ∧
        (∀ r k d, (w'.read r frame' k d).1 =
          if w.cell? r k d = some cell then .ok value else (w.read r frame k d).1) ∧
        (kind = .classVar → ∀ o r o',
          w.objects.get? receiver = some o → w.objects.get? r = some o' →
          (w'.read r frame' kind data).1 =
            if o'.classId = o.classId then .ok value else (w.read r frame kind data).1)) ∧
    (∀ f w', w.write receiver frame kind data value = (.error f, w') →
      w' = { w with objects := w'.objects } ∧ w'.objects.uncached = w.objects.uncached) ∧
    (kind = .constant →
      w.write receiver frame kind data value = (.error .constantNotStorable, w)) := by
  refine ⟨fun o found => ⟨readResident_of_get? found, writeResident_of_get? found⟩,
    fun objectless => read_of_objectless objectless, ?_, ?_, fun f w' => spared_of_write,
    fun same => by rw [same]; rfl⟩
  · intro storable
    have outcome : Outcomes (fun _ _ => True) (w.read receiver frame kind data).1
        (w.write receiver frame kind data value).1 := write_outcome storable
    generalize (w.read receiver frame kind data).1 = x at outcome
    generalize (w.write receiver frame kind data value).1 = y at outcome
    cases outcome with
    | ok _ => simp
    | error f => simp
  · intro frame' w' write
    obtain ⟨cell, named, current', cells, content⟩ := content_write current write
    have reads (r : ObjectId) (k : OperandKind) (d : UInt32) : (w'.read r frame' k d).1 =
        if w.cell? r k d = some cell then .ok value else (w.read r frame k d).1 := by
      rw [read_eq current', read_eq current, cells]
      cases w.cell? r k d with
      | none => simp
      | some c => simp [content]
    refine ⟨cell, named, content, reads, fun isClassVar o r o' found found' => ?_⟩
    subst isClassVar
    rw [reads]
    have there : cell = .classVar o.classId data := by simpa [cell?, found] using named.symm
    simp [cell?, found', there]

end World

/-! ## A variable that two objects share -/

/-- Two objects of one class, the first with an empty cache and the second with a dead one, and an
object of another class, with a cache that counts.  Each class has one variable.  An older record of
the second class is held on to from outside. -/
def World.ofSharing : World where
  objects :=
    { slots := #[{ id := ⟨0⟩, classId := ⟨1⟩ }, { id := ⟨1⟩, classId := ⟨1⟩, cache := some 7 },
        { id := ⟨2⟩, classId := ⟨2⟩, cache := some 2 }] }
  classes :=
    { records := [⟨0, { id := ⟨1⟩, name := "A", vars := #[.nil] }⟩,
        ⟨2, { id := ⟨2⟩, name := "B", vars := #[.nil] }⟩]
      editions := 3
      holds := [1]
      outdated := [⟨1, { id := ⟨2⟩, name := "B", vars := #[.int 9] }⟩] }
  posts := { capacity := 0 }

/-- The variable is written by way of the first object and read by way of the second. -/
theorem World.storage_laws_ofSharing :
    let frame : Frame := ⟨#[], by decide⟩
    ofSharing.objects.Current ofSharing.classes ∧
    ∃ w', ofSharing.write ⟨0⟩ frame .classVar 0 (.int 5) = (.ok frame, w') ∧
      (w'.read ⟨1⟩ frame .classVar 0).1 = .ok (.int 5) ∧
      (w'.read ⟨2⟩ frame .classVar 0).1 = .ok .nil := by
  intro frame
  have current : ofSharing.objects.Current ofSharing.classes := by
    intro id o found
    have mem := Array.mem_of_getElem? (Option.filter_eq_some_iff.mp found).1
    simp only [ofSharing, List.mem_toArray, List.mem_cons, List.not_mem_nil, or_false] at mem
    rcases mem with rfl | rfl | rfl
    · exact .inl rfl
    · exact .inl rfl
    · exact .inr rfl
  have write : ofSharing.write ⟨0⟩ frame .classVar 0 (.int 5) =
      (.ok frame, (ofSharing.write ⟨0⟩ frame .classVar 0 (.int 5)).2) := rfl
  obtain ⟨-, -, -, written, -, -⟩ := storage_laws ofSharing current ⟨0⟩ frame .classVar 0 (.int 5)
  obtain ⟨-, -, -, -, shared⟩ := written _ _ write
  exact ⟨current, _, write, shared rfl _ ⟨1⟩ _ rfl rfl, shared rfl _ ⟨2⟩ _ rfl rfl⟩

end MessageMachine
