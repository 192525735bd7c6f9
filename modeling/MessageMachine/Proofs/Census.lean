import Mathlib.Data.List.Nodup
import MessageMachine.Proofs.Footprint

/-!
# The census of objects

Who is there is a matter of two things about each slot: the number of its object, and whether it is
deleted. That is the *census* of a population.

Nothing but creating and deleting changes the census.  Whatever else the keeper does with an object
is an `Object.Change`, which has neither its number nor its mark of deletion at its disposal; and
reading and writing operands is no more than that.  `Population.Ages` allows for deletions as well,
by someone else.

The census of a population that was started empty is known from two lists, of those that were
created and of those that were deleted (`Population.Accounts`).
-/

namespace MessageMachine

theorem ObjectId.slot_injective : Function.Injective ObjectId.slot := fun _ _ same =>
  congrArg ObjectId.mk (UInt32.toNat_inj.mp same)

/-! ## Changes of an object -/

namespace Object

/-- Who the object is, and whether it is deleted. -/
def entry (o : Object) : ObjectId × Bool := (o.id, o.deleted)

/-- A change that the keeper of an object may make.  Number and mark of deletion are not
at its disposal. -/
structure Change where
  apply : Object → Object
  entry_apply : ∀ o, (apply o).entry = o.entry

theorem entry_of_shape {o o' : Object} (same : o'.shape = o.shape) : o'.entry = o.entry :=
  congrArg (fun s => (s.1, s.2.2.1)) same

/-- Looking up the class of an object refreshes its cache alone. -/
theorem entry_lookUp (o : Object) (classes : Directory) :
    (o.lookUp classes).2.entry = o.entry := by
  obtain ⟨cache, same⟩ := o.lookUp_snd classes
  rw [same]
  rfl

namespace Change

/-- The object is moved to another class. -/
def setClass (cls : ClassId) : Change := ⟨(·.setClass cls), fun _ => rfl⟩

def setGarbage (mark : UInt32) : Change := ⟨fun o => { o with garbage := mark }, fun _ => rfl⟩

/-- A property is written, if there is one of that index. -/
def setProperty (index : UInt32) (value : Value) : Change where
  apply o := (o.setProperty index value).toOption.getD o
  entry_apply o := by
    cases written : o.setProperty index value with
    | ok o' => exact entry_of_shape (shape_of_setProperty written)
    | error f => rfl

def dropCache : Change := ⟨Object.dropCache, fun _ => rfl⟩

/-- The class of the object is looked up, which refreshes its cache. -/
def resolve (classes : Directory) : Change where
  apply o := (o.resolve classes).2
  entry_apply o := o.entry_lookUp classes

end Change

end Object

namespace Population

/-! ## The census -/

/-- Who is in each slot, and whether it is deleted. -/
def census (p : Population) : List (ObjectId × Bool) := p.slots.toList.map Object.entry

variable {p p' : Population} {id : ObjectId} {o o' : Object}

theorem getElem?_census (p : Population) (i : Nat) :
    p.census[i]? = p.slots[i]?.map Object.entry := by
  rw [census, List.getElem?_map, Array.getElem?_toList]

theorem length_census (p : Population) : p.census.length = p.slots.size := by
  rw [census, List.length_map, Array.length_toList]

/-- An object is found if there is one that is not deleted. -/
theorem get?_eq_some_iff : p.get? id = some o ↔ p.slots[id.slot]? = some o ∧ o.deleted = false := by
  rw [get?, Option.filter_eq_some_iff, Bool.not_eq_true']
  rfl

/-- An object in the slot of its number is not found if it is deleted. -/
theorem get?_eq_none_iff (slot : p.slots[o.id.slot]? = some o) :
    p.get? o.id = none ↔ o.deleted = true := by
  rw [← Option.not_isSome_iff_eq_none, Option.isSome_iff_exists]
  simp only [get?_eq_some_iff, slot, Option.some.injEq, exists_eq_left', Bool.not_eq_false]

theorem census_eq_of_getElem?
    (h : ∀ i : Nat, p'.slots[i]?.map Object.entry = p.slots[i]?.map Object.entry) :
    p'.census = p.census := by
  refine List.ext_getElem? fun i => ?_
  rw [getElem?_census, getElem?_census, h]

/-- Rewriting objects does not show in the census. -/
theorem Rewritten.census_eq {touched : Nat → Prop} (h : Rewritten touched p p') :
    p'.census = p.census := by
  refine census_eq_of_getElem? fun i => ?_
  have same := congrArg (Option.map fun s => (s.1, s.2.2.1)) (h.shape i)
  rw [Option.map_map, Option.map_map] at same
  exact same

theorem census_put (found : p.get? id = some o) (same : o'.entry = o.entry) :
    (p.put id o').census = p.census := by
  obtain ⟨slot, -⟩ := get?_eq_some_iff.mp found
  have lt : id.slot < p.slots.size := (Array.getElem?_eq_some_iff.mp slot).1
  refine census_eq_of_getElem? fun i => ?_
  rw [getElem?_put o' lt]
  split_ifs with here
  · rw [here, slot, Option.map_some, Option.map_some, same]
  · rfl

/-- Changing an object does not show in the census. -/
theorem census_update (p : Population) (id : ObjectId) (c : Object.Change) :
    (p.update id c.apply).census = p.census := by
  unfold update
  cases found : p.get? id with
  | none => rfl
  | some o => exact census_put found (c.entry_apply o)

theorem census_create (p : Population) (r : Record) :
    (p.create r).2.census = p.census ++ [((p.create r).1, false)] := by
  unfold create census
  rw [Array.toList_push, List.map_append]
  rfl

theorem delete_of_get?_eq_none (missing : p.get? id = none) : p.delete id = p := by
  rw [delete, update, missing]

/-- An object that is found is deleted in its slot. -/
theorem getElem?_delete (found : p.get? id = some o) (i : Nat) :
    (p.delete id).slots[i]? =
      if i = id.slot then some { o with deleted := true } else p.slots[i]? := by
  obtain ⟨slot, -⟩ := get?_eq_some_iff.mp found
  rw [delete, update, found]
  exact getElem?_put _ (Array.getElem?_eq_some_iff.mp slot).1 i

/-- Deleting hides one object and no other. -/
theorem get?_delete (p : Population) (id n : ObjectId) :
    (p.delete id).get? n = if n = id then none else p.get? n := by
  cases found : p.get? id with
  | none =>
    rw [delete_of_get?_eq_none found]
    split_ifs with this
    · rw [this, found]
    · rfl
  | some o =>
    split_ifs with this
    · have get : (p.delete id).get? n =
          (p.delete id).slots[n.slot]?.filter fun o => !o.deleted := rfl
      rw [get, getElem?_delete found, if_pos (congrArg ObjectId.slot this)]
      rfl
    · rw [delete, update, found]
      exact get?_put_of_ne p this _

/-- A change reaches the object that is found, and no other. -/
theorem get?_update (p : Population) (id n : ObjectId) (c : Object.Change) :
    (p.update id c.apply).get? n = if n = id then (p.get? n).map c.apply else p.get? n := by
  unfold update
  cases found : p.get? id with
  | none =>
    split_ifs with this
    · rw [this, found]
      rfl
    · rfl
  | some o =>
    split_ifs with this
    · rw [this, found]
      exact get?_put found (congrArg Prod.snd (c.entry_apply o))
    · exact get?_put_of_ne p this _

/-! ## Populations that age -/

/-- Nobody has come, and nobody was deleted. -/
def SameCensus (p p' : Population) : Prop := p'.census = p.census

instance : Std.Refl SameCensus := ⟨fun _ => rfl⟩

instance : IsTrans Population SameCensus := ⟨fun _ _ _ h h' => h'.trans h⟩

/-- Nobody has come and nobody has gone, but for being deleted; and who was deleted still is. -/
structure Ages (p p' : Population) : Prop where
  numbers (i : Nat) : p'.slots[i]?.map Object.id = p.slots[i]?.map Object.id
  deleted (i : Nat) : p.slots[i]?.map Object.deleted = some true →
    p'.slots[i]?.map Object.deleted = some true

namespace Ages

theorem of_census (same : p.SameCensus p') : p.Ages p' := by
  have entries (i : Nat) : p'.slots[i]?.map Object.entry = p.slots[i]?.map Object.entry := by
    rw [← getElem?_census, (same : p'.census = p.census), getElem?_census]
  constructor
  · intro i
    have numbers := congrArg (Option.map Prod.fst) (entries i)
    rw [Option.map_map, Option.map_map] at numbers
    exact numbers
  · intro i gone
    have marks := congrArg (Option.map Prod.snd) (entries i)
    rw [Option.map_map, Option.map_map] at marks
    exact marks.trans gone

theorem refl (p : Population) : p.Ages p := of_census rfl

theorem trans {p'' : Population} (h : p.Ages p') (h' : p'.Ages p'') : p.Ages p'' :=
  ⟨fun i => (h'.numbers i).trans (h.numbers i), fun i gone => h'.deleted i (h.deleted i gone)⟩

instance : Std.Refl Ages := ⟨refl⟩

instance : IsTrans Population Ages := ⟨fun _ _ _ => trans⟩

/-- Whoever is there has been there before, and is deleted if it was. -/
theorem exists_before (h : p.Ages p') {i : Nat} (slot' : p'.slots[i]? = some o') :
    ∃ o, p.slots[i]? = some o ∧ o.id = o'.id ∧ (o.deleted = true → o'.deleted = true) := by
  have same := h.numbers i
  have mark := h.deleted i
  rw [slot'] at same mark
  obtain ⟨o, slot, id⟩ := Option.map_eq_some_iff.mp same.symm
  rw [slot, Option.map_some, Option.map_some, Option.some.injEq, Option.some.injEq] at mark
  exact ⟨o, slot, id, mark⟩

/-- To delete is to let a population age. -/
theorem delete (p : Population) (id : ObjectId) : p.Ages (p.delete id) := by
  cases found : p.get? id with
  | none =>
    rw [delete_of_get?_eq_none found]
    exact refl p
  | some o =>
    obtain ⟨slot, -⟩ := get?_eq_some_iff.mp found
    constructor
    · intro i
      rw [getElem?_delete found]
      split_ifs with here
      · rw [here, slot]
        rfl
      · rfl
    · intro i gone
      rw [getElem?_delete found]
      split_ifs with here
      · rfl
      · exact gone

end Ages

/-- Who is live in `p` and not found in `p'`. -/
def gone (p p' : Population) : List ObjectId :=
  (p.live.map Object.id).filter fun id => (p'.get? id).isNone

/-! ## Accounts -/

/-- The census says that the objects in `created` were created, one after another, and that of these
the ones in `deleted` were deleted. -/
structure Accounts (p : Population) (created deleted : List ObjectId) : Prop where
  numbers : p.census.map Prod.fst = created
  marks : ∀ e ∈ p.census, (e.2 = true ↔ e.1 ∈ deleted)
  /-- Numbers are given out in order. -/
  serial : created.map ObjectId.slot = List.range created.length
  once : deleted.Nodup
  known : deleted ⊆ created

namespace Accounts

variable {created deleted : List ObjectId}

theorem empty : Accounts {} [] [] where
  numbers := rfl
  marks e mem := by cases mem
  serial := rfl
  once := List.nodup_nil
  known _ mem := mem

theorem nodup (h : p.Accounts created deleted) : created.Nodup :=
  .of_map ObjectId.slot (h.serial ▸ List.nodup_range)

/-- An object is in the slot of its number. -/
theorem slot_eq (h : p.Accounts created deleted) {i : Nat} (there : created[i]? = some id) :
    id.slot = i := by
  have slot := congrArg (fun l => l[i]?) h.serial
  obtain ⟨lt, -⟩ := List.getElem?_eq_some_iff.mp there
  simp only [List.getElem?_map, there, Option.map_some, List.getElem?_range lt,
    Option.some.injEq] at slot
  exact slot

theorem getElem?_slot_iff (h : p.Accounts created deleted) {n : ObjectId} :
    created[id.slot]? = some n ↔ n = id ∧ id ∈ created := by
  constructor
  · intro there
    obtain rfl := ObjectId.slot_injective (h.slot_eq there)
    exact ⟨rfl, List.mem_of_getElem? there⟩
  · rintro ⟨rfl, known⟩
    obtain ⟨i, there⟩ := List.mem_iff_getElem?.mp known
    rw [h.slot_eq there, there]

theorem getElem?_created (h : p.Accounts created deleted) (i : Nat) :
    created[i]? = p.slots[i]?.map Object.id := by
  rw [← h.numbers, List.getElem?_map, getElem?_census, Option.map_map]
  rfl

/-- The mark of an object says whether its number is among the deleted. -/
theorem deleted_iff (h : p.Accounts created deleted) {i : Nat} (slot : p.slots[i]? = some o) :
    o.deleted = true ↔ o.id ∈ deleted :=
  h.marks o.entry (List.mem_of_getElem? (by rw [getElem?_census, slot]; rfl))

/-- What is found under a number has that number. -/
theorem id_of_get? (h : p.Accounts created deleted) (found : p.get? id = some o) : o.id = id := by
  obtain ⟨slot, -⟩ := get?_eq_some_iff.mp found
  have there := h.getElem?_created id.slot
  rw [slot] at there
  exact (h.getElem?_slot_iff.mp there).1

/-- **An object is found just if it was created and is not deleted.** -/
theorem isSome_get?_iff (h : p.Accounts created deleted) (id : ObjectId) :
    (p.get? id).isSome ↔ id ∈ created ∧ id ∉ deleted := by
  rw [Option.isSome_iff_exists]
  constructor
  · rintro ⟨o, found⟩
    obtain ⟨slot, live⟩ := get?_eq_some_iff.mp found
    have there := h.getElem?_created id.slot
    rw [slot] at there
    obtain ⟨same, known⟩ := h.getElem?_slot_iff.mp there
    refine ⟨known, fun gone => ?_⟩
    rw [(h.deleted_iff slot).mpr (same ▸ gone)] at live
    cases live
  · rintro ⟨known, live⟩
    have there := h.getElem?_slot_iff.mpr ⟨rfl, known⟩
    rw [h.getElem?_created] at there
    obtain ⟨o, slot, rfl⟩ := Option.map_eq_some_iff.mp there
    exact ⟨o, get?_eq_some_iff.mpr ⟨slot, Bool.eq_false_iff.mpr
      fun gone => live ((h.deleted_iff slot).mp gone)⟩⟩

/-- **The live objects are those that were created and are not deleted**, in that order. -/
theorem live_eq (h : p.Accounts created deleted) :
    p.live.map Object.id = created.filter fun id => id ∉ deleted := by
  have live : p.live.map Object.id = (p.census.filter fun e => !e.2).map Prod.fst := by
    rw [live, census, List.filter_map, List.map_map]
    rfl
  have marks : p.census.filter (fun e => !e.2) = p.census.filter fun e => decide (e.1 ∉ deleted) :=
    List.filter_congr fun e mem => by
      rw [Bool.eq_iff_iff, Bool.not_eq_true', decide_eq_true_iff, ← h.marks e mem,
        Bool.not_eq_true]
  rw [live, marks, ← h.numbers, List.filter_map]
  rfl

/-- A live object is what is found under its number. -/
theorem mem_live_iff (h : p.Accounts created deleted) (o : Object) :
    o ∈ p.live ↔ p.get? o.id = some o := by
  rw [live, List.mem_filter, Bool.not_eq_true', get?_eq_some_iff]
  refine and_congr_left fun _ => ?_
  constructor
  · intro mem
    obtain ⟨i, there⟩ := List.mem_iff_getElem?.mp mem
    rw [Array.getElem?_toList] at there
    have slot : o.id.slot = i := h.slot_eq (by rw [h.getElem?_created, there]; rfl)
    rw [slot, there]
  · intro slot
    exact List.mem_of_getElem? (Array.getElem?_toList.trans slot)

/-- The live objects are listed in the order of their numbers. -/
theorem pairwise_live (h : p.Accounts created deleted) :
    (p.live.map Object.id).Pairwise fun n n' => n.slot < n'.slot := by
  have sorted : created.Pairwise fun n n' => n.slot < n'.slot := by
    have slots := List.pairwise_lt_range (n := created.length)
    rwa [← h.serial, List.pairwise_map] at slots
  rw [h.live_eq]
  exact sorted.filter _

/-- **A number is given out once.** -/
theorem create (h : p.Accounts created deleted) (room : created.length < UInt32.size) (r : Record) :
    (p.create r).2.Accounts (created ++ [(p.create r).1]) deleted := by
  have size : p.slots.size = created.length := by
    rw [← h.numbers, List.length_map, length_census]
  have slot : (p.create r).1.slot = created.length := by
    rw [← size] at room ⊢
    exact UInt32.toNat_ofNat_of_lt' room
  have fresh : (p.create r).1 ∉ created := fun known => by
    have there := h.getElem?_slot_iff.mpr ⟨rfl, known⟩
    rw [slot, List.getElem?_eq_none (Nat.le_refl _)] at there
    cases there
  refine ⟨?_, ?_, ?_, h.once, fun id gone => List.mem_append_left _ (h.known gone)⟩
  · rw [census_create, List.map_append, h.numbers]
    rfl
  · rw [census_create]
    refine List.forall_mem_append.mpr ⟨h.marks, List.forall_mem_singleton.mpr ?_⟩
    exact iff_of_false Bool.false_ne_true fun gone => fresh (h.known gone)
  · rw [List.map_append, h.serial, List.length_append, List.length_singleton, List.range_succ,
      List.map_singleton, slot]

theorem of_census (h : p.Accounts created deleted) (same : p.SameCensus p') :
    p'.Accounts created deleted :=
  { h with
    numbers := (same : p'.census = p.census) ▸ h.numbers
    marks := (same : p'.census = p.census) ▸ h.marks }

/-- Those who were found before and are not found any more have to be added to the deleted. -/
theorem of_ages (h : p.Accounts created deleted) (ages : p.Ages p') {more : List ObjectId}
    (once : more.Nodup) (gone : ∀ id, id ∈ more ↔ (p.get? id).isSome ∧ p'.get? id = none) :
    p'.Accounts created (deleted ++ more) where
  numbers := by
    refine List.ext_getElem? fun i => ?_
    rw [h.getElem?_created, List.getElem?_map, getElem?_census, Option.map_map, ← ages.numbers]
    rfl
  marks e mem := by
    obtain ⟨i, entry⟩ := List.mem_iff_getElem?.mp mem
    rw [getElem?_census] at entry
    obtain ⟨o', slot', rfl⟩ := Option.map_eq_some_iff.mp entry
    obtain ⟨o, slot, same, stays⟩ := ages.exists_before slot'
    have there : created[i]? = some o'.id := by
      rw [h.getElem?_created, slot, ← same]
      rfl
    have hidden : p'.get? o'.id = none ↔ o'.deleted = true :=
      get?_eq_none_iff (by rw [h.slot_eq there, slot'])
    show o'.deleted = true ↔ o'.id ∈ deleted ++ more
    rw [List.mem_append, gone, hidden, h.isSome_get?_iff]
    constructor
    · intro mark
      by_cases before : o'.id ∈ deleted
      · exact .inl before
      · exact .inr ⟨⟨List.mem_of_getElem? there, before⟩, mark⟩
    · rintro (before | ⟨-, mark⟩)
      · exact stays ((h.deleted_iff slot).mpr (same ▸ before))
      · exact mark
  serial := h.serial
  once := by
    refine List.nodup_append.mpr ⟨h.once, once, ?_⟩
    intro id mem id' added same
    rw [← same, gone, h.isSome_get?_iff] at added
    exact added.1.2 mem
  known := by
    refine List.append_subset.mpr ⟨h.known, fun id mem => ?_⟩
    exact ((h.isSome_get?_iff id).mp ((gone id).mp mem).1).1

/-- Those who are gone are added to the deleted. -/
theorem ages (h : p.Accounts created deleted) (ages : p.Ages p') :
    p'.Accounts created (deleted ++ p.gone p') := by
  have live : (p.live.map Object.id).Nodup := h.live_eq ▸ h.nodup.filter _
  refine h.of_ages ages (live.filter _) fun id => ?_
  rw [gone, List.mem_filter, h.live_eq, List.mem_filter, decide_eq_true_iff, ← h.isSome_get?_iff,
    Option.isNone_iff_eq_none]

/-- Nobody is gone where the census is the same. -/
theorem gone_eq_nil (h : p.Accounts created deleted) (same : p.SameCensus p') :
    p.gone p' = [] := by
  refine List.filter_eq_nil_iff.mpr fun id mem => ?_
  rw [h.live_eq, List.mem_filter, decide_eq_true_iff, ← (h.of_census same).isSome_get?_iff] at mem
  rw [Bool.not_eq_true, Option.isNone_eq_false_iff]
  exact mem

/-- **Whoever was found by deleting is added to the deleted.** -/
theorem tryDelete (h : p.Accounts created deleted) (id : ObjectId) :
    (p.tryDelete id).2.Accounts created (deleted ++ if (p.tryDelete id).1 then [id] else []) := by
  refine h.of_ages (.delete p id) ?_ fun n => ?_
  · split_ifs
    · exact List.nodup_singleton id
    · exact List.nodup_nil
  · have listed : (n ∈ if (p.get? id).isSome then [id] else []) ↔ n = id ∧ (p.get? id).isSome := by
      split_ifs with found <;> simp [found]
    show (n ∈ if (p.get? id).isSome then [id] else []) ↔ _ ∧ (p.delete id).get? n = none
    rw [listed, get?_delete]
    constructor
    · rintro ⟨rfl, found⟩
      exact ⟨found, if_pos rfl⟩
    · rintro ⟨found, hidden⟩
      split_ifs at hidden with this
      · exact ⟨this, this ▸ found⟩
      · rw [hidden] at found
        cases found

end Accounts

end Population

/-! ## Operands -/

namespace World

variable (w : World) (receiver : ObjectId) (frame : Frame) (kind : OperandKind) (data : UInt32)

/-- Reading an operand does not show in the census. -/
theorem census_read : (w.read receiver frame kind data).2.objects.census = w.objects.census := by
  obtain ⟨objects, same, rewritten⟩ := w.rewritten_read receiver frame kind data fun _ => True
  rw [same]
  exact rewritten.census_eq

/-- Writing an operand does not show in the census, be it a class variable. -/
theorem census_write (value : Value) :
    (w.write receiver frame kind data value).2.objects.census = w.objects.census := by
  unfold write
  cases kind with
  | localVar | constant => rfl
  | property =>
    dsimp only
    cases found : w.objects.get? receiver with
    | none => rfl
    | some o =>
      dsimp only
      cases written : o.setProperty data value with
      | ok o' =>
        exact Population.census_put found
          (Object.entry_of_shape (Object.shape_of_setProperty written))
      | error f => rfl
  | classVar =>
    dsimp only
    cases found : w.objects.get? receiver with
    | none => rfl
    | some o =>
      have entry : (o.setClassVar w.classes data value).2.entry = o.entry := by
        rw [o.setClassVar_eq]
        exact o.entry_lookUp w.classes
      dsimp only
      generalize o.setClassVar w.classes data value = outcome at entry
      match outcome with
      | (.ok _, _) | (.error _, _) => exact Population.census_put found entry

end World

end MessageMachine
