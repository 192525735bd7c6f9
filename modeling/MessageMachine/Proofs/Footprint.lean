import MessageMachine.World

/-!
# Footprints

What running code may change of the objects of a world is little: the values of properties, and the
class cache.  Everything else about an object is its *shape*.  `Population.Rewritten touched`
relates two populations when every slot keeps its shape, and when only `touched` slots may have
other property values than before.

`World.Rewritten` adds the rest of a world: the directory stays as it is, and posts are added at
the end of the queue only.  Clock and journal are left open.

Both relations compose (`trans`), and a footprint may always be widened (`mono`).  The operands of a
statement are all that ever touches an object: reading one touches nothing
(`World.rewritten_read`), and writing one touches the receiver alone (`World.rewritten_write`).
-/

namespace MessageMachine

/-- The slot of the object with the given number. -/
def ObjectId.slot (id : ObjectId) : Nat := id.number.toNat

namespace Object

/-- All of an object but the values of its properties and its cache. -/
def shape (o : Object) : ObjectId × ClassId × Bool × UInt32 × Array PropertyId :=
  (o.id, o.classId, o.deleted, o.garbage, o.properties.map Property.id)

/-- Looking up the class of an object refreshes its cache, and no more. -/
theorem lookUp_snd (o : Object) (classes : Directory) :
    ∃ cache, (o.lookUp classes).2 = { o with cache } := by
  unfold lookUp
  split
  · exact ⟨o.cache, rfl⟩
  split
  · exact ⟨_, rfl⟩
  · exact ⟨o.cache, rfl⟩

theorem classVar_eq (o : Object) (classes : Directory) (index : UInt32) :
    o.classVar classes index =
      (match (o.lookUp classes).1 with
        | some r => r.cls.var index
        | none => .error (.unknownClass o.classId), (o.lookUp classes).2) := by
  unfold classVar
  generalize o.lookUp classes = outcome
  obtain ⟨_ | r, o'⟩ := outcome <;> rfl

theorem setClassVar_eq (o : Object) (classes : Directory) (index : UInt32) (value : Value) :
    o.setClassVar classes index value =
      (match (o.lookUp classes).1 with
        | some r => classes.writeVar r index value
        | none => .error (.unknownClass o.classId), (o.lookUp classes).2) := by
  unfold setClassVar
  generalize o.lookUp classes = outcome
  obtain ⟨_ | r, o'⟩ := outcome <;> rfl

/-- Writing a property keeps the shape of the object. -/
theorem shape_of_setProperty {o o' : Object} {index : UInt32} {value : Value}
    (h : o.setProperty index value = .ok o') : o'.shape = o.shape := by
  unfold setProperty at h
  split at h
  · rename_i hi
    cases h
    simp only [shape, Prod.mk.injEq, true_and]
    ext i
    · simp
    · simp only [Array.getElem_map, Array.getElem_set]
      split <;> simp_all
  · cases h

end Object

namespace Population

/-- Every slot keeps its shape, and only `touched` slots may have other property values. -/
structure Rewritten (touched : Nat → Prop) (p p' : Population) : Prop where
  shape (i : Nat) : p'.slots[i]?.map Object.shape = p.slots[i]?.map Object.shape
  properties (i : Nat) : ¬ touched i →
    p'.slots[i]?.map Object.properties = p.slots[i]?.map Object.properties

namespace Rewritten

variable {touched touched' : Nat → Prop} {p p' p'' : Population}

theorem refl (touched : Nat → Prop) (p : Population) : Rewritten touched p p :=
  ⟨fun _ => rfl, fun _ _ => rfl⟩

theorem trans (h : Rewritten touched p p') (h' : Rewritten touched p' p'') :
    Rewritten touched p p'' :=
  ⟨fun i => (h'.shape i).trans (h.shape i),
    fun i hi => (h'.properties i hi).trans (h.properties i hi)⟩

/-- A footprint may be widened. -/
theorem mono (h : Rewritten touched p p') (sub : ∀ i, touched i → touched' i) :
    Rewritten touched' p p' :=
  ⟨h.shape, fun i hi => h.properties i fun ht => hi (sub i ht)⟩

/-- No slot is added or taken away. -/
theorem size_eq (h : Rewritten touched p p') : p'.size = p.size := by
  have none_iff : ∀ i, p'.slots.size ≤ i ↔ p.slots.size ≤ i := by
    intro i
    rw [← Array.getElem?_eq_none_iff, ← Array.getElem?_eq_none_iff,
      ← Option.map_eq_none_iff (f := Object.shape), h.shape i, Option.map_eq_none_iff]
  exact Nat.le_antisymm ((none_iff _).mpr (Nat.le_refl _)) ((none_iff _).mp (Nat.le_refl _))

end Rewritten

/-- A slot after an object was put into the slot of a number that is in use. -/
theorem getElem?_put {p : Population} {id : ObjectId} (o : Object) (h : id.slot < p.slots.size)
    (i : Nat) : (p.put id o).slots[i]? = if i = id.slot then some o else p.slots[i]? := by
  have e : (p.put id o).slots = p.slots.setIfInBounds id.slot o := rfl
  rw [e]
  by_cases hi : i = id.slot
  · rw [if_pos hi, hi, Array.getElem?_setIfInBounds_self_of_lt h]
  · rw [if_neg hi, Array.getElem?_setIfInBounds_ne (Ne.symm hi)]

/-- An object that was put into its slot is found there. -/
theorem get?_put {p : Population} {id : ObjectId} {o o' : Object}
    (found : p.get? id = some o) (deleted : o'.deleted = o.deleted) :
    (p.put id o').get? id = some o' := by
  obtain ⟨slot, live⟩ := Option.filter_eq_some_iff.mp found
  have lt : id.slot < p.slots.size := (Array.getElem?_eq_some_iff.mp slot).1
  refine Option.filter_eq_some_iff.mpr ⟨?_, by rw [deleted]; exact live⟩
  exact (getElem?_put o' lt id.slot).trans (if_pos rfl)

/-- Putting an object into its slot leaves all others where they are. -/
theorem get?_put_of_ne (p : Population) {id id' : ObjectId} (ne : id' ≠ id) (o : Object) :
    (p.put id o).get? id' = p.get? id' := by
  have slots : id.number.toNat ≠ id'.number.toNat := fun same =>
    ne (congrArg ObjectId.mk (UInt32.toNat_inj.mp same.symm))
  unfold get? put
  rw [Array.getElem?_setIfInBounds_ne slots]

/-- Putting an object of the same shape into a slot touches that slot at most, and does not touch it
when the properties are the same too. -/
theorem rewritten_put {touched : Nat → Prop} {p : Population} {id : ObjectId} {o o' : Object}
    (found : p.get? id = some o) (shape : o'.shape = o.shape)
    (properties : ¬ touched id.slot → o'.properties = o.properties) :
    Rewritten touched p (p.put id o') := by
  have hslot : p.slots[id.slot]? = some o := (Option.filter_eq_some_iff.mp found).1
  have hlt : id.slot < p.slots.size := (Array.getElem?_eq_some_iff.mp hslot).1
  constructor
  · intro i
    rw [getElem?_put o' hlt]
    by_cases hi : i = id.slot
    · rw [if_pos hi, hi, hslot, Option.map_some, Option.map_some, shape]
    · rw [if_neg hi]
  · intro i ht
    rw [getElem?_put o' hlt]
    by_cases hi : i = id.slot
    · rw [if_pos hi, hi, hslot, Option.map_some, Option.map_some, properties (hi ▸ ht)]
    · rw [if_neg hi]

end Population

namespace World

/-- The objects are rewritten in `touched` slots at most, the directory is the same, and the queue
has got new posts at its end at most. -/
structure Rewritten (touched : Nat → Prop) (w w' : World) : Prop where
  objects : w.objects.Rewritten touched w'.objects
  classes : w'.classes = w.classes
  posts : ∃ posted, w'.posts = { w.posts with waiting := w.posts.waiting ++ posted }

namespace Rewritten

variable {touched touched' : Nat → Prop} {w w' w'' : World}

theorem refl (touched : Nat → Prop) (w : World) : Rewritten touched w w :=
  ⟨.refl _ _, rfl, [], by rw [List.append_nil]⟩

theorem trans (h : Rewritten touched w w') (h' : Rewritten touched w' w'') :
    Rewritten touched w w'' := by
  obtain ⟨posted, hp⟩ := h.posts
  obtain ⟨posted', hp'⟩ := h'.posts
  refine ⟨h.objects.trans h'.objects, h'.classes.trans h.classes, posted ++ posted', ?_⟩
  rw [hp', hp, List.append_assoc]

theorem mono (h : Rewritten touched w w') (sub : ∀ i, touched i → touched' i) :
    Rewritten touched' w w' :=
  ⟨h.objects.mono sub, h.classes, h.posts⟩

/-- Journal and clock do not count. -/
theorem of_eq (objects : w'.objects = w.objects) (classes : w'.classes = w.classes)
    (posts : w'.posts = w.posts) : Rewritten touched w w' :=
  ⟨objects ▸ .refl _ _, classes, [], by rw [posts, List.append_nil]⟩

/-- A change of the objects alone. -/
theorem of_objects {objects : Population} (h : w.objects.Rewritten touched objects) :
    Rewritten touched w { w with objects } :=
  ⟨h, rfl, [], by rw [List.append_nil]⟩

end Rewritten

/-- Reading an operand touches nothing. -/
theorem rewritten_read (w : World) (receiver : ObjectId) (frame : Frame) (kind : OperandKind)
    (data : UInt32) (touched : Nat → Prop) :
    ∃ objects, (w.read receiver frame kind data).2 = { w with objects } ∧
      w.objects.Rewritten touched objects := by
  unfold read
  split
  · exact ⟨w.objects, rfl, .refl _ _⟩
  · exact ⟨w.objects, rfl, .refl _ _⟩
  · split <;> exact ⟨w.objects, rfl, .refl _ _⟩
  · split
    · rename_i o found
      obtain ⟨cache, h⟩ := o.lookUp_snd w.classes
      refine ⟨_, rfl, ?_⟩
      rw [o.classVar_eq, h]
      exact Population.rewritten_put found rfl fun _ => rfl
    · exact ⟨w.objects, rfl, .refl _ _⟩

/-- Writing a place touches the receiver at most: code has no way to write a class variable. -/
theorem rewritten_write (w : World) (receiver : ObjectId) (frame : Frame) (place : Place)
    (data : UInt32) (value : Value) :
    ∃ objects, (w.write receiver frame place.kind data value).2 = { w with objects } ∧
      w.objects.Rewritten (· = receiver.slot) objects := by
  cases place with
  | localVar => exact ⟨w.objects, rfl, .refl _ _⟩
  | property =>
    simp only [write, Place.kind]
    split
    · rename_i o found
      split
      · rename_i o' h
        exact ⟨_, rfl, Population.rewritten_put found (Object.shape_of_setProperty h)
          fun hne => absurd rfl hne⟩
      · exact ⟨w.objects, rfl, .refl _ _⟩
    · exact ⟨w.objects, rfl, .refl _ _⟩

/-- Writing a place leaves a frame of the same size. -/
theorem size_of_write (w : World) (receiver : ObjectId) (frame : Frame) (place : Place)
    (data : UInt32) (value : Value) (frame' : Frame)
    (h : (w.write receiver frame place.kind data value).1 = .ok frame') :
    frame'.size = frame.size := by
  cases place with
  | localVar =>
    simp only [write, Place.kind, Frame.set] at h
    split at h
    · cases h
      simp only [Frame.size, Array.size_set]
    · cases h
  | property =>
    simp only [write, Place.kind] at h
    split at h
    · split at h
      · cases h
        rfl
      · cases h
    · cases h

end World

end MessageMachine
