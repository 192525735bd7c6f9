import MessageMachine.Proofs.Directory
import MessageMachine.Proofs.Statement.Lockstep

/-!
# The class cache is transparent

The cache of an object is meant to save a search of the directory, and nothing else is to be told
from it.  For this a cache that counts has to be *current*: it must lead to the record that a search
would find (`Object.Current`).  If nobody but the directory holds on to records, and if it has one
for each number, all caches are current (`Object.current_of_sole`).  Classes may then be replaced
and removed, and objects may be moved to other classes, without a word to the caches.

It takes no more than a record that is held on to from outside to spoil this: a cache may then lead
to an outdated record.

Worlds that differ in caches alone are `World.Recached`.  Operands read the same in them and are
written alike, as long as the directory is the only one to hold on to records.
-/

namespace MessageMachine

/-! ## One object -/

/-- Two searches that come to agree on the kind of what they have found have found the same. -/
theorem find?_eq_of_find? {α : Type} {p q : α → Bool} {xs : List α} {a b : α}
    (first : xs.find? p = some a) (ha : q a = true) (second : xs.find? q = some b)
    (hb : p b = true) : a = b := by
  induction xs with
  | nil => simp at first
  | cons x xs ih =>
    rw [List.find?_cons] at first second
    by_cases hp : p x = true
    · rw [hp] at first
      cases first
      rw [ha] at second
      exact Option.some.inj second
    · by_cases hq : q x = true
      · rw [hq] at second
        cases second
        exact absurd hb hp
      · simp only [hp, hq] at first second
        exact ih first second

namespace Object

variable {classes : Directory}

/-- What is cached is alive, is of the edition that the object remembers, and is of its class. -/
theorem of_cachedRecord? {o : Object} {r : Record} (cached : o.cachedRecord? classes = some r) :
    o.cache = some r.edition ∧ classes.ofEdition? r.edition = some r ∧ r.cls.id = o.classId := by
  unfold cachedRecord? at cached
  cases remembered : o.cache with
  | none =>
    rw [remembered] at cached
    cases cached
  | some edition =>
    rw [remembered] at cached
    obtain ⟨alive, number⟩ := Option.filter_eq_some_iff.mp cached
    have same : r.edition = edition := by
      have found := List.find?_some alive
      exact of_decide_eq_true found
    exact ⟨congrArg some same.symm, same ▸ alive, of_decide_eq_true number⟩

/-- **A refreshed cache leads to the record that was found.**  Even if two records had one number or
one edition, the search would find the same one every time. -/
theorem lookUp_lookUp (o : Object) (classes : Directory) :
    ((o.lookUp classes).2.lookUp classes).1 = (o.lookUp classes).1 := by
  cases cached : o.cachedRecord? classes with
  | some r =>
    have same : o.lookUp classes = (some r, o) := by rw [lookUp, cached]
    rw [same, same]
  | none =>
    cases found : classes.record? o.classId with
    | none =>
      have same : o.lookUp classes = (none, o) := by rw [lookUp, cached, found]
      rw [same, same]
    | some r =>
      have refreshed : o.lookUp classes = (some r, { o with cache := some r.edition }) := by
        rw [lookUp, cached, found]
      rw [refreshed, lookUp]
      dsimp only
      cases again : ({ o with cache := some r.edition } : Object).cachedRecord? classes with
      | none => rw [found]
      | some r' =>
        -- the edition is that of the record which was found under the number of the class
        obtain ⟨edition, alive, number⟩ := of_cachedRecord? again
        have listed : classes.living.find? (fun r => decide (r.cls.id = o.classId)) = some r :=
          List.find?_append.trans (by rw [show classes.records.find? _ = some r from found]; rfl)
        have same : r = r' :=
          find?_eq_of_find? listed (decide_eq_true (Option.some.inj edition)) alive
            (decide_eq_true number)
        rw [same]

/-- A cache that counts leads to the record that a search would find. -/
def Current (o : Object) (classes : Directory) : Prop :=
  o.cachedRecord? classes = none ∨ o.cachedRecord? classes = classes.record? o.classId

/-- The class of an object with a current cache is the one in the directory. -/
theorem Current.lookUp_fst {o : Object} (current : o.Current classes) :
    (o.lookUp classes).1 = classes.record? o.classId := by
  unfold lookUp
  rcases current with missing | same
  · rw [missing]
    dsimp only
    cases classes.record? o.classId <;> rfl
  · rw [same]
    cases found : classes.record? o.classId <;> rfl

theorem current_iff_lookUp {o : Object} :
    o.Current classes ↔ (o.lookUp classes).1 = classes.record? o.classId := by
  refine ⟨Current.lookUp_fst, fun same => ?_⟩
  unfold lookUp at same
  cases cached : o.cachedRecord? classes with
  | none => exact .inl cached
  | some r =>
    rw [cached] at same
    exact .inr (cached.trans same)

/-- A cache that is refreshed stays current. -/
theorem Current.refreshed {o : Object} (current : o.Current classes) :
    (o.lookUp classes).2.Current classes := by
  obtain ⟨cache, e⟩ := o.lookUp_snd classes
  rw [current_iff_lookUp, o.lookUp_lookUp, current.lookUp_fst, e]

/-- Current caches stay so when a class variable is written. -/
theorem Current.overwrite {o : Object} (current : o.Current classes) {r : Record} {cls : Class}
    (number : cls.id = r.cls.id) : o.Current (classes.overwrite r cls) := by
  have cached : o.cachedRecord? (classes.overwrite r cls) =
      (o.cachedRecord? classes).map (r.overwrite cls) := by
    unfold cachedRecord?
    cases o.cache with
    | none => rfl
    | some edition =>
      dsimp only
      rw [classes.ofEdition?_overwrite number, Option.filter_map]
      congr 2
      funext other
      exact congrArg (fun id => decide (id = o.classId))
        (congrArg Prod.snd (Record.key_overwrite number other))
  rcases current with missing | same
  · exact .inl (by rw [cached, missing]; rfl)
  · exact .inr (by rw [cached, same, classes.record?_overwrite number])

/-- **All caches are current if nobody else holds on to records.** -/
theorem current_of_sole (o : Object) (sole : classes.Sole) : o.Current classes := by
  cases cached : o.cachedRecord? classes with
  | none => exact .inl cached
  | some r =>
    obtain ⟨-, alive, number⟩ := of_cachedRecord? cached
    have listed : r ∈ classes.records := by
      have mem := List.mem_of_find?_eq_some alive
      rwa [Directory.living, sole.outdated, List.append_nil] at mem
    refine .inr (cached.trans ?_)
    rw [← number]
    exact (sole.distinct.record?_of_mem listed).symm

/-- **A cached class counts only if it is the one that a search would find.** -/
theorem cachedClass?_cases (sole : classes.Sole) (o : Object) :
    o.cachedClass? classes = none ∨
      ∃ r, classes.record? o.classId = some r ∧ o.cache = some r.edition ∧
        o.cachedClass? classes = some r.cls := by
  unfold cachedClass?
  cases cached : o.cachedRecord? classes with
  | none => exact .inl rfl
  | some r =>
    have current :=
      (o.current_of_sole sole).resolve_left (by rw [cached]; exact Option.some_ne_none r)
    exact .inr ⟨r, current.symm.trans cached, (of_cachedRecord? cached).1, rfl⟩

/-- **The class of an object is the one in the directory**, whatever its cache holds. -/
theorem resolve_fst (sole : classes.Sole) (o : Object) :
    (o.resolve classes).1 = classes.get? o.classId :=
  congrArg (Option.map Record.cls) (o.current_of_sole sole).lookUp_fst

theorem dropCache_lookUp (o : Object) (classes : Directory) :
    (o.lookUp classes).2.dropCache = o.dropCache := by
  obtain ⟨cache, e⟩ := o.lookUp_snd classes
  rw [e]
  rfl

/-- What objects have in common that differ in their caches alone. -/
theorem of_dropCache {o o' : Object} (same : o.dropCache = o'.dropCache) :
    ∃ cache, o' = { o with cache } := by
  obtain ⟨id, classId, cache, deleted, garbage, properties⟩ := o
  obtain ⟨id', classId', cache', deleted', garbage', properties'⟩ := o'
  cases same
  exact ⟨cache', rfl⟩

/-- Writing a class variable, the directory remains the only one to hold on to records. -/
theorem sole_setClassVar (sole : classes.Sole) {o : Object} {index : UInt32} {value : Value}
    {classes' : Directory} (written : (o.setClassVar classes index value).1 = .ok classes') :
    classes'.Sole := by
  rw [setClassVar_eq] at written
  cases found : (o.lookUp classes).1 with
  | none =>
    rw [found] at written
    cases written
  | some r =>
    rw [found] at written
    obtain ⟨cls, -, number, rfl⟩ := Directory.exists_of_writeVar written
    exact sole.overwrite number

variable {o o' : Object} (same : o.dropCache = o'.dropCache)

include same

theorem classId_of_dropCache : o.classId = o'.classId := by
  obtain ⟨cache, rfl⟩ := of_dropCache same
  rfl

theorem property_of_dropCache (index : UInt32) : o.property index = o'.property index := by
  obtain ⟨cache, rfl⟩ := of_dropCache same
  rfl

theorem setProperty_of_dropCache (index : UInt32) (value : Value) :
    Outcomes (fun x x' => x.dropCache = x'.dropCache) (o.setProperty index value)
      (o'.setProperty index value) := by
  obtain ⟨cache, rfl⟩ := of_dropCache same
  unfold setProperty
  dsimp only
  split
  · exact .ok rfl
  · exact .error _

theorem lookUp_of_dropCache (sole : classes.Sole) :
    (o.lookUp classes).1 = (o'.lookUp classes).1 ∧
      (o.lookUp classes).2.dropCache = (o'.lookUp classes).2.dropCache := by
  rw [dropCache_lookUp, dropCache_lookUp, (current_of_sole o sole).lookUp_fst,
    (current_of_sole o' sole).lookUp_fst, classId_of_dropCache same]
  exact ⟨rfl, same⟩

theorem classVar_of_dropCache (sole : classes.Sole) (index : UInt32) :
    (o.classVar classes index).1 = (o'.classVar classes index).1 ∧
      (o.classVar classes index).2.dropCache = (o'.classVar classes index).2.dropCache := by
  obtain ⟨found, after⟩ := lookUp_of_dropCache same sole
  rw [classVar_eq, classVar_eq, found, classId_of_dropCache same]
  exact ⟨rfl, after⟩

theorem setClassVar_of_dropCache (sole : classes.Sole) (index : UInt32) (value : Value) :
    (o.setClassVar classes index value).1 = (o'.setClassVar classes index value).1 ∧
      (o.setClassVar classes index value).2.dropCache =
        (o'.setClassVar classes index value).2.dropCache := by
  obtain ⟨found, after⟩ := lookUp_of_dropCache same sole
  rw [setClassVar_eq, setClassVar_eq, found, classId_of_dropCache same]
  exact ⟨rfl, after⟩

end Object

/-! ## All objects -/

namespace Population

/-- The population with all caches empty. -/
def uncached (p : Population) : Population := ⟨p.slots.map Object.dropCache⟩

theorem get?_uncached (p : Population) (id : ObjectId) :
    p.uncached.get? id = (p.get? id).map Object.dropCache := by
  unfold get? uncached
  rw [Array.getElem?_map]
  cases p.slots[id.number.toNat]? with
  | none => rfl
  | some o =>
    rw [Option.map_some, Option.filter_some, Option.filter_some,
      show o.dropCache.deleted = o.deleted from rfl]
    split <;> rfl

theorem uncached_put (p : Population) (id : ObjectId) (o : Object) :
    (p.put id o).uncached = p.uncached.put id o.dropCache := by
  unfold put uncached
  rw [Array.map_setIfInBounds]

/-- An object that differs in its cache alone is no news. -/
theorem uncached_put_of_get? {p : Population} {id : ObjectId} {o o' : Object}
    (found : p.get? id = some o) (same : o'.dropCache = o.dropCache) :
    (p.put id o').uncached = p.uncached := by
  obtain ⟨slot, -⟩ := Option.filter_eq_some_iff.mp found
  obtain ⟨lt, slot⟩ := Array.getElem?_eq_some_iff.mp slot
  have lt' : id.number.toNat < (p.slots.map Object.dropCache).size := by
    rw [Array.size_map]
    exact lt
  have kept : o.dropCache = (p.slots.map Object.dropCache)[id.number.toNat] := by
    rw [Array.getElem_map, slot]
  rw [uncached_put, same, kept]
  unfold put uncached
  rw [Array.setIfInBounds_def, dif_pos lt', Array.set_getElem_self]

variable {p p' : Population} (h : p.uncached = p'.uncached)

include h

/-- An object is found in both populations or in neither. -/
theorem get?_cases (id : ObjectId) :
    (p.get? id = none ∧ p'.get? id = none) ∨
      ∃ o o', p.get? id = some o ∧ p'.get? id = some o' ∧ o.dropCache = o'.dropCache := by
  have same : (p.get? id).map Object.dropCache = (p'.get? id).map Object.dropCache := by
    rw [← get?_uncached, h, get?_uncached]
  cases found : p.get? id with
  | none =>
    rw [found] at same
    exact .inl ⟨rfl, Option.map_eq_none_iff.mp same.symm⟩
  | some o =>
    rw [found] at same
    obtain ⟨o', found', same⟩ := Option.map_eq_some_iff.mp same.symm
    exact .inr ⟨o, o', rfl, found', same.symm⟩

theorem put_of_uncached (id : ObjectId) {o o' : Object} (same : o.dropCache = o'.dropCache) :
    (p.put id o).uncached = (p'.put id o').uncached := by
  rw [uncached_put, uncached_put, h, same]

/-- A change that does not look at caches. -/
theorem update_of_uncached (id : ObjectId) {f : Object → Object}
    (blind : ∀ o o' : Object, o.dropCache = o'.dropCache → (f o).dropCache = (f o').dropCache) :
    (p.update id f).uncached = (p'.update id f).uncached := by
  unfold update
  rcases get?_cases h id with ⟨missing, missing'⟩ | ⟨o, o', found, found', same⟩
  · rw [missing, missing']
    exact h
  · rw [found, found']
    exact put_of_uncached h id (blind o o' same)

theorem create_of_uncached (r : Record) :
    (p.create r).1 = (p'.create r).1 ∧ (p.create r).2.uncached = (p'.create r).2.uncached := by
  have size : p.slots.size = p'.slots.size := by
    have sizes := congrArg (fun q : Population => q.slots.size) h
    simpa [uncached] using sizes
  have slots : p.slots.map Object.dropCache = p'.slots.map Object.dropCache :=
    congrArg Population.slots h
  unfold create uncached
  dsimp only
  rw [Array.map_push, Array.map_push, slots, size]
  exact ⟨rfl, rfl⟩

end Population

/-! ## Worlds -/

/-- The worlds differ in the caches of their objects alone, and nobody but the directory holds on to
records. -/
structure World.Recached (w w' : World) : Prop where
  objects : w.objects.uncached = w'.objects.uncached
  classes : w.classes = w'.classes
  posts : w.posts = w'.posts
  clock : w.clock = w'.clock
  journal : w.journal = w'.journal
  sole : w.classes.Sole

namespace World.Recached

variable {w w' w'' : World}

theorem refl {w : World} (sole : w.classes.Sole) : w.Recached w :=
  ⟨rfl, rfl, rfl, rfl, rfl, sole⟩

theorem symm (h : w.Recached w') : w'.Recached w :=
  ⟨h.objects.symm, h.classes.symm, h.posts.symm, h.clock.symm, h.journal.symm,
    h.classes ▸ h.sole⟩

theorem trans (h : w.Recached w') (h' : w'.Recached w'') : w.Recached w'' :=
  ⟨h.objects.trans h'.objects, h.classes.trans h'.classes, h.posts.trans h'.posts,
    h.clock.trans h'.clock, h.journal.trans h'.journal, h.sole⟩

theorem log (h : w.Recached w') (x : Entry) : (w.log x).Recached (w'.log x) :=
  ⟨h.objects, h.classes, h.posts, h.clock, congrArg (Array.push · x) h.journal, h.sole⟩

theorem withPosts (h : w.Recached w') (posts : PostQueue) :
    World.Recached { w with posts } { w' with posts } :=
  ⟨h.objects, h.classes, rfl, h.clock, h.journal, h.sole⟩

theorem withClock (h : w.Recached w') (clock : Clock) :
    World.Recached { w with clock } { w' with clock } :=
  ⟨h.objects, h.classes, h.posts, rfl, h.journal, h.sole⟩

theorem withClasses (h : w.Recached w') {classes : Directory} (sole : classes.Sole) :
    World.Recached { w with classes } { w' with classes } :=
  ⟨h.objects, rfl, h.posts, h.clock, h.journal, sole⟩

theorem putObject (h : w.Recached w') (id : ObjectId) {o o' : Object}
    (same : o.dropCache = o'.dropCache) : (w.putObject id o).Recached (w'.putObject id o') :=
  ⟨Population.put_of_uncached h.objects id same, h.classes, h.posts, h.clock, h.journal, h.sole⟩

theorem update (h : w.Recached w') (id : ObjectId) {f : Object → Object}
    (blind : ∀ o o' : Object, o.dropCache = o'.dropCache → (f o).dropCache = (f o').dropCache) :
    (w.update id f).Recached (w'.update id f) :=
  ⟨Population.update_of_uncached h.objects id blind, h.classes, h.posts, h.clock, h.journal,
    h.sole⟩

/-- A dropped cache is all that is different. -/
theorem dropCache {w : World} (sole : w.classes.Sole) (id : ObjectId) :
    (w.update id Object.dropCache).Recached w := by
  refine ⟨?_, rfl, rfl, rfl, rfl, sole⟩
  show (w.objects.update id Object.dropCache).uncached = w.objects.uncached
  unfold Population.update
  cases found : w.objects.get? id with
  | none => rfl
  | some o => exact Population.uncached_put_of_get? found rfl

/-- **Operands read the same.** -/
theorem read (h : w.Recached w') (receiver : ObjectId) (frame : Frame) (kind : OperandKind)
    (data : UInt32) :
    (w.read receiver frame kind data).1 = (w'.read receiver frame kind data).1 ∧
      (w.read receiver frame kind data).2.Recached (w'.read receiver frame kind data).2 := by
  unfold World.read
  cases kind with
  | localVar => exact ⟨rfl, h⟩
  | constant => exact ⟨rfl, h⟩
  | property =>
    rcases Population.get?_cases h.objects receiver with
      ⟨missing, missing'⟩ | ⟨o, o', found, found', same⟩
    · rw [missing, missing']
      exact ⟨rfl, h⟩
    · rw [found, found']
      exact ⟨Object.property_of_dropCache same data, h⟩
  | classVar =>
    rcases Population.get?_cases h.objects receiver with
      ⟨missing, missing'⟩ | ⟨o, o', found, found', same⟩
    · rw [missing, missing']
      exact ⟨rfl, h⟩
    · obtain ⟨value, after⟩ := Object.classVar_of_dropCache same h.sole data
      rw [found, found', ← h.classes]
      exact ⟨value, h.putObject receiver after⟩

/-- **Operands are written alike.** -/
theorem write (h : w.Recached w') (receiver : ObjectId) (frame : Frame) (kind : OperandKind)
    (data : UInt32) (value : Value) :
    (w.write receiver frame kind data value).1 = (w'.write receiver frame kind data value).1 ∧
      (w.write receiver frame kind data value).2.Recached
        (w'.write receiver frame kind data value).2 := by
  unfold World.write
  cases kind with
  | localVar => exact ⟨rfl, h⟩
  | constant => exact ⟨rfl, h⟩
  | property =>
    rcases Population.get?_cases h.objects receiver with
      ⟨missing, missing'⟩ | ⟨o, o', found, found', same⟩
    · rw [missing, missing']
      exact ⟨rfl, h⟩
    · rw [found, found']
      dsimp only
      have outcomes := Object.setProperty_of_dropCache same data value
      generalize o.setProperty data value = x at outcomes
      generalize o'.setProperty data value = x' at outcomes
      cases outcomes with
      | ok same => exact ⟨rfl, h.putObject receiver same⟩
      | error f => exact ⟨rfl, h⟩
  | classVar =>
    rcases Population.get?_cases h.objects receiver with
      ⟨missing, missing'⟩ | ⟨o, o', found, found', same⟩
    · rw [missing, missing']
      exact ⟨rfl, h⟩
    · obtain ⟨result, after⟩ := Object.setClassVar_of_dropCache same h.sole data value
      have sole (d : Directory) (written : (o.setClassVar w.classes data value).1 = .ok d) :
          d.Sole := Object.sole_setClassVar h.sole written
      rw [found, found', ← h.classes]
      dsimp only
      generalize o.setClassVar w.classes data value = x at result after sole
      generalize o'.setClassVar w.classes data value = x' at result after
      obtain ⟨r, o₁⟩ := x
      obtain ⟨r', o₁'⟩ := x'
      cases result
      cases r with
      | ok d => exact ⟨rfl, (h.putObject receiver after).withClasses (sole d rfl)⟩
      | error f => exact ⟨rfl, h.putObject receiver after⟩

/-- Operands of a receiver that is found beforehand read the same. -/
theorem readResident (h : w.Recached w') (receiver : ObjectId) (frame : Frame) (kind : OperandKind)
    (data : UInt32) :
    Option.Rel (fun x x' => x.1 = x'.1 ∧ x.2.Recached x'.2)
      (w.readResident receiver frame kind data) (w'.readResident receiver frame kind data) := by
  unfold World.readResident
  rcases Population.get?_cases h.objects receiver with
    ⟨missing, missing'⟩ | ⟨o, o', found, found', same⟩
  · rw [missing, missing']
    exact .none
  · rw [found, found']
    refine .some ?_
    cases kind with
    | localVar => exact ⟨rfl, h.putObject receiver same⟩
    | constant => exact ⟨rfl, h.putObject receiver same⟩
    | property =>
      exact ⟨Object.property_of_dropCache same data, h.putObject receiver same⟩
    | classVar =>
      obtain ⟨value, after⟩ := Object.classVar_of_dropCache same h.sole data
      rw [← h.classes]
      exact ⟨value, h.putObject receiver after⟩

/-- Operands of a receiver that is found beforehand are written alike. -/
theorem writeResident (h : w.Recached w') (receiver : ObjectId) (frame : Frame) (kind : OperandKind)
    (data : UInt32) (value : Value) :
    Option.Rel (fun x x' => x.1 = x'.1 ∧ x.2.Recached x'.2)
      (w.writeResident receiver frame kind data value)
      (w'.writeResident receiver frame kind data value) := by
  unfold World.writeResident
  rcases Population.get?_cases h.objects receiver with
    ⟨missing, missing'⟩ | ⟨o, o', found, found', same⟩
  · rw [missing, missing']
    exact .none
  rw [found, found']
  refine .some ?_
  dsimp only
  have kept {classes : Directory} (sole : classes.Sole) {x x' : Object}
      (same : x.dropCache = x'.dropCache) :
      World.Recached { w.putObject receiver x with classes }
        { w'.putObject receiver x' with classes } :=
    (h.putObject receiver same).withClasses sole
  cases kind with
  | localVar =>
    unfold Object.write
    cases frame.set data value with
    | ok f => exact ⟨rfl, h.classes ▸ kept h.sole same⟩
    | error f => exact ⟨rfl, h.putObject receiver same⟩
  | constant => exact ⟨rfl, h.putObject receiver same⟩
  | property =>
    unfold Object.write
    have outcomes := Object.setProperty_of_dropCache same data value
    generalize o.setProperty data value = x at outcomes
    generalize o'.setProperty data value = x' at outcomes
    cases outcomes with
    | ok same => exact ⟨rfl, h.classes ▸ kept h.sole same⟩
    | error f => exact ⟨rfl, h.putObject receiver same⟩
  | classVar =>
    obtain ⟨result, after⟩ := Object.setClassVar_of_dropCache same h.sole data value
    have sole (d : Directory) (written : (o.setClassVar w.classes data value).1 = .ok d) :
        d.Sole := Object.sole_setClassVar h.sole written
    unfold Object.write
    rw [← h.classes]
    dsimp only
    generalize o.setClassVar w.classes data value = x at result after sole
    generalize o'.setClassVar w.classes data value = x' at result after
    obtain ⟨r, o₁⟩ := x
    obtain ⟨r', o₁'⟩ := x'
    cases result
    cases r with
    | ok d => exact ⟨rfl, kept (sole d rfl) after⟩
    | error f => exact ⟨rfl, h.putObject receiver after⟩

/-- The same object is created. -/
theorem create (h : w.Recached w') (id : ClassId) :
    Option.Rel (fun x x' => x.1 = x'.1 ∧ x.2.Recached x'.2) (w.create id) (w'.create id) := by
  unfold World.create
  rw [← h.classes]
  cases w.classes.record? id with
  | none => exact .none
  | some r =>
    obtain ⟨same, objects⟩ := Population.create_of_uncached h.objects r
    exact .some ⟨same, objects, rfl, h.posts, h.clock, h.journal, h.sole⟩

end World.Recached

/-! ## Native functions -/

/-- The function does not look at caches: worlds that differ in caches alone get the same reply, and
differ in caches alone afterwards. -/
def Native.IgnoresCaches (n : Native) : Prop :=
  ∀ c w w', World.Recached w w' →
    (n.run c w).1 = (n.run c w').1 ∧ (n.run c w).2.Recached (n.run c w').2

/-- All functions of the table ignore caches. -/
def NativeTable.IgnoresCaches (t : NativeTable) : Prop :=
  ∀ index n, t.slot index = some n → n.IgnoresCaches

/-- The standard functions do not look at objects at all. -/
theorem Native.IsStandard.ignoresCaches {n : Native} (hn : n.IsStandard) : n.IgnoresCaches :=
  fun c _ _ h => hn.run_related World.Recached.posts World.Recached.withPosts World.Recached.log c h

theorem NativeTable.IsStandard.ignoresCaches {t : NativeTable} (ht : t.IsStandard) :
    t.IgnoresCaches :=
  fun index n slot => (ht index n slot).ignoresCaches

end MessageMachine
