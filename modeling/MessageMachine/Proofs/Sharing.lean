import MessageMachine.Proofs.Caches
import MessageMachine.Proofs.Statement.Sending
import MessageMachine.Proofs.Machine.Twins

/-!
# Worlds that share some objects

Code that runs for an object can tell of it whether it is there, its class and its properties, and
the record that the variables of its class are read from; nothing of any other object.

Two populations *agree* on the object of a number when it is there in both or in
neither, with the same class and properties (`Population.AgreeAt`).  The record is
another matter, since a cache may lead to an outdated one: the caches *lead alike*
when they lead to the same record (`Population.LeadAlike`), as they do when all caches
are current (`Population.LeadAlike.of_current`).

Worlds with all this in common for some objects, which are otherwise the same, are twins for these
receivers (`World.Shares.twinship`): what is read is the same, and what is written to one world is
written to the other, so they have as much in common again.
-/

namespace MessageMachine

/-! ## One object -/

/-- What code can tell of an object that is there, the cache aside. -/
def Object.visible (o : Object) : ClassId × Array Property := (o.classId, o.properties)

namespace Object

/-- The record that an object leads to is a matter of its cache and the number of its class. -/
theorem lookUp_congr {o o' : Object} (cache : o'.cache = o.cache) (classId : o'.classId = o.classId)
    (classes : Directory) : (o'.lookUp classes).1 = (o.lookUp classes).1 := by
  have cached : o'.cachedRecord? classes = o.cachedRecord? classes := by
    rw [cachedRecord?, cachedRecord?, cache, classId]
  unfold lookUp
  rw [cached, classId]
  cases o.cachedRecord? classes with
  | some r => rfl
  | none => cases classes.record? o.classId <;> rfl

/-- Writing a property leaves the cache and the class alone, and neither deletes the object nor
brings it back. -/
theorem kept_of_setProperty {o o' : Object} {index : UInt32} {value : Value}
    (set : o.setProperty index value = .ok o') :
    o'.classId = o.classId ∧ o'.deleted = o.deleted ∧ o'.cache = o.cache := by
  unfold setProperty at set
  split at set
  · cases set
    exact ⟨rfl, rfl, rfl⟩
  · cases set

variable {o o' : Object} (same : o.visible = o'.visible)

include same

theorem property_of_visible (index : UInt32) : o.property index = o'.property index := by
  have properties : o.properties = o'.properties := congrArg Prod.snd same
  rw [property, property, properties]

/-- A property is written to both or to neither. -/
theorem setProperty_of_visible (index : UInt32) (value : Value) :
    Outcomes (fun x x' => x.visible = x'.visible) (o.setProperty index value)
      (o'.setProperty index value) := by
  obtain ⟨id, classId, cache, deleted, garbage, properties⟩ := o
  obtain ⟨id', classId', cache', deleted', garbage', properties'⟩ := o'
  cases same
  unfold setProperty
  dsimp only
  split
  · exact .ok rfl
  · exact .error _

end Object

/-! ## All objects -/

namespace Population

/-- The object of the number is missing or deleted in both, or what code can tell of it is the same
in both, the cache aside. -/
def AgreeAt (p p' : Population) (id : ObjectId) : Prop :=
  (p.get? id).map Object.visible = (p'.get? id).map Object.visible

/-- The object of the number is missing or deleted in both, or it leads to the same
record in both. -/
def LeadAlike (classes : Directory) (p p' : Population) (id : ObjectId) : Prop :=
  (p.get? id).map (fun o => (o.lookUp classes).1) = (p'.get? id).map fun o => (o.lookUp classes).1

/-- The caches of all objects are current. -/
def Current (classes : Directory) (p : Population) : Prop :=
  ∀ id o, p.get? id = some o → o.Current classes

variable {p p' : Population} {classes : Directory} {id : ObjectId}

theorem AgreeAt.cases (h : p.AgreeAt p' id) :
    (p.get? id = none ∧ p'.get? id = none) ∨
      ∃ o o', p.get? id = some o ∧ p'.get? id = some o' ∧ o.visible = o'.visible := by
  unfold AgreeAt at h
  cases found : p.get? id with
  | none =>
    rw [found] at h
    exact .inl ⟨rfl, Option.map_eq_none_iff.mp h.symm⟩
  | some o =>
    rw [found] at h
    obtain ⟨o', found', same⟩ := Option.map_eq_some_iff.mp h.symm
    exact .inr ⟨o, o', rfl, found', same.symm⟩

/-- **Caches that are current lead alike** where the objects have the same class. -/
theorem LeadAlike.of_current (h : p.AgreeAt p' id) (current : p.Current classes)
    (current' : p'.Current classes) : p.LeadAlike classes p' id := by
  unfold LeadAlike
  rcases h.cases with ⟨missing, missing'⟩ | ⟨o, o', found, found', same⟩
  · rw [missing, missing']
  · rw [found, found', Option.map_some, Option.map_some, (current id o found).lookUp_fst,
      (current' id o' found').lookUp_fst, show o.classId = o'.classId from congrArg Prod.fst same]

/-- An object with a current cache is put back. -/
theorem Current.put (h : p.Current classes) {o n : Object} (found : p.get? id = some o)
    (deleted : n.deleted = o.deleted) (current : n.Current classes) :
    (p.put id n).Current classes := by
  intro id' o' found'
  by_cases this : id' = id
  · rw [this, get?_put found deleted] at found'
    cases found'
    exact current
  · rw [get?_put_of_ne p this] at found'
    exact h id' o' found'

/-- Nobody else holds on to records, so all caches are current. -/
theorem current_of_sole (sole : classes.Sole) (p : Population) : p.Current classes :=
  fun _ o _ => o.current_of_sole sole

end Population

/-! ## Worlds -/

/-- The worlds agree on the objects whose numbers satisfy `T`, the caches of these lead alike, and
all but the objects is the same. -/
structure World.Shares (T : ObjectId → Prop) (w w' : World) : Prop where
  objects : ∀ id, T id → w.objects.AgreeAt w'.objects id
  leads : ∀ id, T id → w.objects.LeadAlike w.classes w'.objects id
  classes : w.classes = w'.classes
  posts : w.posts = w'.posts
  clock : w.clock = w'.clock
  journal : w.journal = w'.journal

namespace World.Shares

variable {T : ObjectId → Prop} {w w' : World}

theorem log (h : w.Shares T w') (x : Entry) : (w.log x).Shares T (w'.log x) :=
  ⟨h.objects, h.leads, h.classes, h.posts, h.clock, congrArg (Array.push · x) h.journal⟩

theorem withPosts (h : w.Shares T w') (posts : PostQueue) :
    World.Shares T { w with posts } { w' with posts } :=
  ⟨h.objects, h.leads, h.classes, rfl, h.clock, h.journal⟩

theorem withClock (h : w.Shares T w') (clock : Clock) :
    World.Shares T { w with clock } { w' with clock } :=
  ⟨h.objects, h.leads, h.classes, h.posts, rfl, h.journal⟩

/-- A shared object is missing in both worlds, or it is there in both. -/
theorem cases (h : w.Shares T w') {id : ObjectId} (known : T id) :
    (w.objects.get? id = none ∧ w'.objects.get? id = none) ∨
      ∃ o o', w.objects.get? id = some o ∧ w'.objects.get? id = some o' ∧ o.visible = o'.visible ∧
        (o.lookUp w.classes).1 = (o'.lookUp w.classes).1 := by
  rcases (h.objects id known).cases with missing | ⟨o, o', found, found', same⟩
  · exact .inl missing
  · have leads := h.leads id known
    unfold Population.LeadAlike at leads
    rw [found, found'] at leads
    exact .inr ⟨o, o', found, found', same, Option.some.inj leads⟩

/-- Objects that code cannot tell apart are put back. -/
theorem putObject (h : w.Shares T w') {id : ObjectId} {o o' n n' : Object}
    (found : w.objects.get? id = some o) (found' : w'.objects.get? id = some o')
    (deleted : n.deleted = o.deleted) (deleted' : n'.deleted = o'.deleted)
    (same : n.visible = n'.visible) (leads : (n.lookUp w.classes).1 = (n'.lookUp w.classes).1) :
    (w.putObject id n).Shares T (w'.putObject id n') := by
  have put {α : Type} (f : Object → α) (alike : f n = f n') (id' : ObjectId)
      (before : (w.objects.get? id').map f = (w'.objects.get? id').map f) :
      ((w.objects.put id n).get? id').map f = ((w'.objects.put id n').get? id').map f := by
    by_cases this : id' = id
    · rw [this, Population.get?_put found deleted, Population.get?_put found' deleted']
      exact congrArg some alike
    · rw [Population.get?_put_of_ne _ this, Population.get?_put_of_ne _ this]
      exact before
  exact ⟨fun id' known => put _ same id' (h.objects id' known),
    fun id' known => put _ leads id' (h.leads id' known), h.classes, h.posts, h.clock, h.journal⟩

variable {receiver : ObjectId} (known : T receiver)

include known

/-- **Operands of a shared object read the same.** -/
theorem read (h : w.Shares T w') (frame : Frame) (kind : OperandKind) (data : UInt32) :
    (w.read receiver frame kind data).1 = (w'.read receiver frame kind data).1 ∧
      (w.read receiver frame kind data).2.Shares T (w'.read receiver frame kind data).2 := by
  unfold World.read
  cases kind with
  | localVar => exact ⟨rfl, h⟩
  | constant => exact ⟨rfl, h⟩
  | property =>
    rcases h.cases known with ⟨missing, missing'⟩ | ⟨o, o', found, found', same, -⟩
    · rw [missing, missing']
      exact ⟨rfl, h⟩
    · rw [found, found']
      exact ⟨Object.property_of_visible same data, h⟩
  | classVar =>
    rcases h.cases known with ⟨missing, missing'⟩ | ⟨o, o', found, found', same, leads⟩
    · rw [missing, missing']
      exact ⟨rfl, h⟩
    · rw [found, found', ← h.classes]
      dsimp only
      rw [o.classVar_eq, o'.classVar_eq, leads,
        show o.classId = o'.classId from congrArg Prod.fst same]
      -- refreshed caches lead to the record that was found
      have again : ((o.lookUp w.classes).2.lookUp w.classes).1 =
          ((o'.lookUp w.classes).2.lookUp w.classes).1 := by
        rw [o.lookUp_lookUp, o'.lookUp_lookUp, leads]
      obtain ⟨cache, e⟩ := o.lookUp_snd w.classes
      obtain ⟨cache', e'⟩ := o'.lookUp_snd w.classes
      rw [e, e'] at again ⊢
      exact ⟨rfl, h.putObject found found' rfl rfl same again⟩

/-- **A shared object is written alike.** -/
theorem write (h : w.Shares T w') (frame : Frame) (place : Place) (index : UInt32) (value : Value) :
    (w.write receiver frame place.kind index value).1 =
        (w'.write receiver frame place.kind index value).1 ∧
      (w.write receiver frame place.kind index value).2.Shares T
        (w'.write receiver frame place.kind index value).2 := by
  cases place with
  | localVar => exact ⟨rfl, h⟩
  | property =>
    dsimp only [World.write, Place.kind]
    rcases h.cases known with ⟨missing, missing'⟩ | ⟨o, o', found, found', same, leads⟩
    · rw [missing, missing']
      exact ⟨rfl, h⟩
    · rw [found, found']
      dsimp only
      have kept (x n : Object) (set : x.setProperty index value = .ok n) :
          n.deleted = x.deleted ∧ (n.lookUp w.classes).1 = (x.lookUp w.classes).1 :=
        have ⟨classId, deleted, cache⟩ := Object.kept_of_setProperty set
        ⟨deleted, Object.lookUp_congr cache classId w.classes⟩
      have outcomes := Object.setProperty_of_visible same index value
      have keeps := kept o
      have keeps' := kept o'
      generalize o.setProperty index value = x at outcomes keeps
      generalize o'.setProperty index value = x' at outcomes keeps'
      cases outcomes with
      | ok alike =>
        obtain ⟨deleted, lead⟩ := keeps _ rfl
        obtain ⟨deleted', lead'⟩ := keeps' _ rfl
        exact ⟨rfl, h.putObject found found' deleted deleted' alike
          (lead.trans (leads.trans lead'.symm))⟩
      | error f => exact ⟨rfl, h⟩

omit known in
/-- **Worlds are twins for the objects that they share**, if the natives are standard. -/
theorem twinship {natives : NativeTable} (hn : natives.IsStandard) :
    World.Twinship (World.Shares T) T natives where
  read h _ known frame kind data := h.read known frame kind data
  write h _ known frame place index value := h.write known frame place index value
  native slot c _ _ h := (hn _ _ slot).run_related World.Shares.posts withPosts log c h
  classOf h id known := by
    rcases h.cases known with ⟨missing, missing'⟩ | ⟨o, o', found, found', same, -⟩
    · rw [missing, missing']
    · rw [found, found']
      exact congrArg (some ∘ Prod.fst) same
  classes h := h.classes
  clock h := h.clock
  withClock h := h.withClock
  log h := h.log

end World.Shares

end MessageMachine
