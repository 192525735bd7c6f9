import MessageMachine.Proofs.Machine.Caches

/-!
# Histories and the class cache

Between its runs an engine is worked on by its keeper: classes come, are replaced and go, objects
are created, deleted and moved to other classes, operands are read and written on their behalf.  All
of this leaves caches behind that no longer say what the directory says.  An `Operation` is one such
deed, a top-level send being another, and a cache may be dropped at any time.

`Engine.caches_unobserved` says that this never matters.  A cached class that still counts is the
one in the directory, and histories that differ in dropped caches alone have the same observations.
-/

namespace MessageMachine

/-! ## Operations -/

/-- The world with the caches of some objects empty. -/
def World.dropCaches (w : World) (objects : List ObjectId) : World :=
  objects.foldl (fun w id => w.update id Object.dropCache) w

/-- Something that is done to an engine. -/
inductive Operation where
  /-- A class is inserted, perhaps in the place of another. -/
  | insertClass (c : Class)
  | removeClass (id : ClassId)
  /-- An instance is created of a class in the directory. -/
  | create (cls : ClassId)
  | delete (object : ObjectId)
  | setClass (object : ObjectId) (cls : ClassId)
  | dropCaches (objects : List ObjectId)
  | read (receiver : ObjectId) (frame : Frame) (kind : OperandKind) (data : UInt32)
  | write (receiver : ObjectId) (frame : Frame) (kind : OperandKind) (data : UInt32) (value : Value)
  /-- An operand is read for a receiver that is found beforehand. -/
  | readResident (receiver : ObjectId) (frame : Frame) (kind : OperandKind) (data : UInt32)
  /-- An operand is written for a receiver that is found beforehand. -/
  | writeResident (receiver : ObjectId) (frame : Frame) (kind : OperandKind) (data : UInt32)
    (value : Value)
  | send (send : Send)

/-- Does the operation do more than to drop caches? -/
def Operation.isDeed : Operation → Bool
  | dropCaches _ => false
  | _ => true

/-- What an operation gives.  The receiver of an operand that is to be found beforehand may be
missing, and so may the class of an instance. -/
inductive Observation where
  | created (object : Option ObjectId)
  | read (result : Option (Except Fault Value))
  | written (result : Option (Except Fault Frame))
  | answered (result : Except Fault Value)

namespace Engine

/-- The engine with another world. -/
def withWorld (e : Engine) (world : World) : Engine := { e with world }

/-- What an operation gives, and the engine after it. -/
def perform (e : Engine) : Operation → Option Observation × Engine
  | .insertClass c => (none, e.withWorld { e.world with classes := e.world.classes.insert c })
  | .removeClass id => (none, e.withWorld { e.world with classes := e.world.classes.remove id })
  | .create cls =>
    match e.world.create cls with
    | some (object, world) => (some (.created (some object)), e.withWorld world)
    | none => (some (.created none), e)
  | .delete object => (none, e.withWorld (e.world.delete object))
  | .setClass object cls => (none, e.withWorld (e.world.update object (·.setClass cls)))
  | .dropCaches objects => (none, e.withWorld (e.world.dropCaches objects))
  | .read receiver frame kind data =>
    let (result, world) := e.world.read receiver frame kind data
    (some (.read (some result)), e.withWorld world)
  | .write receiver frame kind data value =>
    let (result, world) := e.world.write receiver frame kind data value
    (some (.written (some result)), e.withWorld world)
  | .readResident receiver frame kind data =>
    match e.world.readResident receiver frame kind data with
    | some (result, world) => (some (.read (some result)), e.withWorld world)
    | none => (some (.read none), e)
  | .writeResident receiver frame kind data value =>
    match e.world.writeResident receiver frame kind data value with
    | some (result, world) => (some (.written (some result)), e.withWorld world)
    | none => (some (.written none), e)
  | .send send =>
    let (result, e) := e.send send
    (some (.answered result), e)

/-- What a history of operations gives, and the engine after it. -/
def performAll : Engine → List Operation → List Observation × Engine
  | e, [] => ([], e)
  | e, op :: ops =>
    let (seen, e) := e.perform op
    let (later, e) := e.performAll ops
    (seen.toList ++ later, e)

theorem performAll_cons (e : Engine) (op : Operation) (ops : List Operation) :
    e.performAll (op :: ops) =
      ((e.perform op).1.toList ++ ((e.perform op).2.performAll ops).1,
        ((e.perform op).2.performAll ops).2) :=
  rfl

theorem natives_perform (e : Engine) (op : Operation) : (e.perform op).2.natives = e.natives := by
  unfold Engine.perform
  cases op with
  | create | readResident | writeResident =>
    dsimp only
    split <;> rfl
  | _ => rfl

theorem natives_performAll (e : Engine) (ops : List Operation) :
    (e.performAll ops).2.natives = e.natives := by
  induction ops generalizing e with
  | nil => rfl
  | cons op ops ih =>
    rw [performAll_cons]
    exact (ih (e.perform op).2).trans (e.natives_perform op)

/-- The engines differ in caches alone. -/
structure Recached (e e' : Engine) : Prop where
  settings : e.settings = e'.settings
  natives : e.natives = e'.natives
  statistics : e.statistics = e'.statistics
  world : e.world.Recached e'.world

end Engine

/-! ## Dropped caches -/

theorem World.Recached.dropCaches {w : World} (sole : w.classes.Sole)
    (objects : List ObjectId) : (w.dropCaches objects).Recached w := by
  unfold World.dropCaches
  induction objects generalizing w with
  | nil => exact .refl sole
  | cons id objects ih =>
    have first : (w.update id Object.dropCache).Recached w := .dropCache sole id
    exact (ih first.sole).trans first

/-- Each cached class that counts is the one in the directory, and so is each class that
is looked up. -/
def World.CachesCurrent (w : World) : Prop :=
  ∀ o ∈ w.objects.slots,
    (o.cachedClass? w.classes = none ∨
      ∃ r, w.classes.record? o.classId = some r ∧ o.cache = some r.edition ∧
        o.cachedClass? w.classes = some r.cls) ∧
    (o.resolve w.classes).1 = w.classes.get? o.classId

theorem World.cachesCurrent {w : World} (sole : w.classes.Sole) : w.CachesCurrent :=
  fun o _ => ⟨o.cachedClass?_cases sole, o.resolve_fst sole⟩

/-- The machine with the caches of some objects empty. -/
def Machine.dropCaches (m : Machine) (objects : List ObjectId) : Machine :=
  { m with session := { m.session with world := m.session.world.dropCaches objects } }

theorem Machine.Recached.refl {m : Machine} (sole : m.session.world.classes.Sole) :
    m.Recached m :=
  ⟨⟨.refl sole, rfl, rfl, rfl, rfl⟩, rfl, rfl⟩

theorem Machine.Recached.dropCaches {m : Machine} (sole : m.session.world.classes.Sole)
    (objects : List ObjectId) : (m.dropCaches objects).Recached m :=
  ⟨⟨World.Recached.dropCaches sole objects, rfl, rfl, rfl, rfl⟩, rfl, rfl⟩

/-! ## One operation -/

namespace Engine.Recached

variable {e e' : Engine}

theorem refl {e : Engine} (sole : e.world.classes.Sole) : e.Recached e :=
  ⟨rfl, rfl, rfl, .refl sole⟩

theorem symm (h : e.Recached e') : e'.Recached e :=
  ⟨h.settings.symm, h.natives.symm, h.statistics.symm, h.world.symm⟩

theorem trans {e'' : Engine} (h : e.Recached e') (h' : e'.Recached e'') : e.Recached e'' :=
  ⟨h.settings.trans h'.settings, h.natives.trans h'.natives, h.statistics.trans h'.statistics,
    h.world.trans h'.world⟩

theorem withWorld (h : e.Recached e') {w w' : World} (worlds : w.Recached w') :
    (e.withWorld w).Recached (e'.withWorld w') :=
  ⟨h.settings, h.natives, h.statistics, worlds⟩

theorem environment (h : e.Recached e') : e.environment = e'.environment := by
  unfold Engine.environment
  rw [h.settings, h.natives]

theorem start (h : e.Recached e') (send : Send) : (e.start send).Recached (e'.start send) := by
  unfold Engine.start Engine.beginSend
  dsimp only
  rw [← h.world.clock, ← h.world.posts, ← h.settings, ← h.statistics]
  refine ⟨⟨?_, rfl, rfl, rfl, rfl⟩, rfl, rfl⟩
  exact ⟨h.world.objects, h.world.classes, rfl, rfl, h.world.journal, h.world.sole⟩

/-- A send is answered alike. -/
theorem send (h : e.Recached e') (hn : e.natives.IgnoresCaches) (send : Send) :
    (e.send send).1 = (e'.send send).1 ∧ (e.send send).2.Recached (e'.send send).2 := by
  have run : ((e.start send).run e.environment).Recached ((e'.start send).run e.environment) :=
    (h.start send).run hn
  have started : e.beginSend.1 = e'.beginSend.1 := by
    unfold Engine.beginSend
    rw [h.world.clock]
  rw [Engine.send_eq, Engine.send_eq, ← h.environment, ← started]
  generalize (e.start send).run e.environment = m at run
  generalize (e'.start send).run e.environment = m' at run
  obtain ⟨world, statistics⟩ :=
    run.twins.session.endSend (World.Recached.twinship hn) e e' send e.beginSend.1
  exact ⟨run.result, h.settings, h.natives, statistics, world⟩

/-- **An operation gives the same**, whatever the caches hold. -/
theorem perform (h : e.Recached e') (hn : e.natives.IgnoresCaches) (op : Operation) :
    (e.perform op).1 = (e'.perform op).1 ∧ (e.perform op).2.Recached (e'.perform op).2 := by
  unfold Engine.perform
  cases op with
  | insertClass c =>
    rw [← h.world.classes]
    exact ⟨rfl, h.withWorld (h.world.withClasses (h.world.sole.insert c))⟩
  | removeClass id =>
    rw [← h.world.classes]
    exact ⟨rfl, h.withWorld (h.world.withClasses (h.world.sole.remove id))⟩
  | create cls =>
    have created := h.world.create cls
    dsimp only
    generalize e.world.create cls = x at created
    generalize e'.world.create cls = x' at created
    cases created with
    | none => exact ⟨rfl, h⟩
    | @some x x' created =>
      obtain ⟨same, after⟩ := created
      exact ⟨congrArg (fun o => some (Observation.created (some o))) same, h.withWorld after⟩
  | delete object =>
    refine ⟨rfl, h.withWorld (h.world.update object (f := fun o => { o with deleted := true }) ?_)⟩
    intro o o' same
    obtain ⟨cache, rfl⟩ := Object.of_dropCache same
    rfl
  | setClass object cls =>
    refine ⟨rfl, h.withWorld (h.world.update object ?_)⟩
    intro o o' same
    obtain ⟨cache, rfl⟩ := Object.of_dropCache same
    rfl
  | dropCaches objects =>
    have dropped := World.Recached.dropCaches h.world.sole objects
    have dropped' := World.Recached.dropCaches h.world.symm.sole objects
    exact ⟨rfl, h.withWorld (dropped.trans (h.world.trans dropped'.symm))⟩
  | read receiver frame kind data =>
    obtain ⟨same, after⟩ := h.world.read receiver frame kind data
    exact ⟨congrArg (fun r => some (Observation.read (some r))) same, h.withWorld after⟩
  | write receiver frame kind data value =>
    obtain ⟨same, after⟩ := h.world.write receiver frame kind data value
    exact ⟨congrArg (fun r => some (Observation.written (some r))) same, h.withWorld after⟩
  | readResident receiver frame kind data =>
    have reads := h.world.readResident receiver frame kind data
    dsimp only
    generalize e.world.readResident receiver frame kind data = x at reads
    generalize e'.world.readResident receiver frame kind data = x' at reads
    cases reads with
    | none => exact ⟨rfl, h⟩
    | @some x x' reads =>
      obtain ⟨same, after⟩ := reads
      exact ⟨congrArg (fun r => some (Observation.read (some r))) same, h.withWorld after⟩
  | writeResident receiver frame kind data value =>
    have writes := h.world.writeResident receiver frame kind data value
    dsimp only
    generalize e.world.writeResident receiver frame kind data value = x at writes
    generalize e'.world.writeResident receiver frame kind data value = x' at writes
    cases writes with
    | none => exact ⟨rfl, h⟩
    | @some x x' writes =>
      obtain ⟨same, after⟩ := writes
      exact ⟨congrArg (fun r => some (Observation.written (some r))) same, h.withWorld after⟩
  | send send =>
    obtain ⟨same, after⟩ := h.send hn send
    exact ⟨congrArg (fun r => some (Observation.answered r)) same, after⟩

/-! ## Histories -/

/-- To drop caches is not to do anything. -/
theorem perform_of_not_isDeed (h : e.Recached e') {op : Operation} (idle : op.isDeed = false) :
    (e.perform op).1 = none ∧ (e.perform op).2.Recached e' := by
  cases op with
  | dropCaches objects =>
    have dropped := World.Recached.dropCaches h.world.sole objects
    exact ⟨rfl, h.settings, h.natives, h.statistics, dropped.trans h.world⟩
  | _ => cases idle

/-- **A history gives the same as its deeds alone.** -/
theorem performAll (h : e.Recached e') (hn : e.natives.IgnoresCaches) (ops : List Operation) :
    (e.performAll ops).1 = (e'.performAll (ops.filter Operation.isDeed)).1 ∧
      (e.performAll ops).2.Recached (e'.performAll (ops.filter Operation.isDeed)).2 := by
  induction ops generalizing e e' with
  | nil => exact ⟨rfl, h⟩
  | cons op ops ih =>
    have hn' : (e.perform op).2.natives.IgnoresCaches := by
      rw [e.natives_perform op]
      exact hn
    rw [performAll_cons]
    cases deed : op.isDeed with
    | false =>
      obtain ⟨unseen, next⟩ := h.perform_of_not_isDeed deed
      obtain ⟨later, last⟩ := ih next hn'
      rw [List.filter_cons_of_neg (by rw [deed]; exact Bool.false_ne_true), unseen, later]
      exact ⟨rfl, last⟩
    | true =>
      obtain ⟨seen, next⟩ := h.perform hn op
      obtain ⟨later, last⟩ := ih next hn'
      rw [List.filter_cons_of_pos deed, performAll_cons, seen, later]
      exact ⟨rfl, last⟩

end Engine.Recached

namespace Engine

/-- **The class cache is transparent.**  Let the natives ignore caches themselves, and let the
directory hold one class for each number and be the only one to hold on to records, as a new one is.
Take any history.

Whenever an object has a cached class that counts, this is the record that the directory holds for
its class; and the class that is looked up for it is the one in the directory.

A history that does the same, but drops caches at other times or not at all, gives the same results
of reads, writes and sends.  Both leave engines behind that differ in caches alone.

The same goes for the states inside of a send: caches may be dropped at any of them, and the
send ends alike. -/
theorem caches_unobserved (e : Engine) (hn : e.natives.IgnoresCaches)
    (sole : e.world.classes.Sole) (ops : List Operation) :
    let now := (e.performAll ops).2
    now.world.CachesCurrent ∧
    (∀ ops', ops'.filter Operation.isDeed = ops.filter Operation.isDeed →
      (e.performAll ops').1 = (e.performAll ops).1 ∧ (e.performAll ops').2.Recached now) ∧
    ∀ send, ∀ m ∈ now.states send, m.session.world.CachesCurrent ∧
      ∀ objects,
        let end₁ := (m.dropCaches objects).run now.environment
        let end₂ := m.run now.environment
        end₁.result = end₂.result ∧ end₁.session.Recached end₂.session := by
  intro now
  have all (ops : List Operation) := (Recached.refl sole).performAll hn ops
  obtain ⟨seen, after⟩ := all ops
  have hn' : now.environment.natives.IgnoresCaches := by
    show now.natives.IgnoresCaches
    rw [e.natives_performAll ops]
    exact hn
  refine ⟨World.cachesCurrent after.world.sole, fun ops' same => ?_, fun send m mem => ?_⟩
  · obtain ⟨seen', after'⟩ := all ops'
    rw [same] at seen' after'
    exact ⟨seen'.trans seen.symm, after'.trans after.symm⟩
  · have sole : m.session.world.classes.Sole :=
      Machine.trace_invariant (P := fun m => m.session.world.classes.Sole) now.environment
        (fun m _ h => ((Machine.Recached.refl h).step hn').session.world.sole) _
        after.world.sole m mem
    refine ⟨World.cachesCurrent sole, fun objects => ?_⟩
    have run := (Machine.Recached.dropCaches sole objects).run hn'
    exact ⟨run.result, run.session⟩

/-- A class is replaced after an instance of it has been created and used. -/
def reloading : List Operation :=
  let version (v : Int) : Class := { id := ⟨1⟩, name := "Reloaded", vars := #[.int v] }
  let look : Operation := .read ⟨0⟩ ⟨#[], Nat.zero_le _⟩ .classVar 0
  [.insertClass (version 1), .create ⟨1⟩, look, .insertClass (version 2), look]

theorem caches_unobserved_reloading :
    let e := ofSettings {}
    let ops' := reloading.take 4 ++ .dropCaches [⟨0⟩] :: reloading.drop 4
    e.natives.IgnoresCaches ∧ e.world.classes.Sole ∧
      ops'.filter Operation.isDeed = reloading.filter Operation.isDeed ∧
      (e.performAll ops').1 =
        [.created (some ⟨0⟩), .read (some (.ok (.int 1))), .read (some (.ok (.int 2)))] ∧
      (e.performAll reloading).2.world.CachesCurrent ∧
      ∀ send, ((e.performAll reloading).2.start send).session.world.CachesCurrent := by
  intro e ops'
  have natives : e.natives.IgnoresCaches :=
    NativeTable.IsStandard.ignoresCaches NativeTable.isStandard_standard
  have sole : e.world.classes.Sole := Directory.sole_empty
  obtain ⟨current, others, inside⟩ := caches_unobserved e natives sole reloading
  refine ⟨natives, sole, rfl, (others ops' rfl).1.trans ?_, current, fun send => ?_⟩
  · rfl
  · exact (inside send _ (Machine.mem_trace_self _ _)).1

end Engine

end MessageMachine
