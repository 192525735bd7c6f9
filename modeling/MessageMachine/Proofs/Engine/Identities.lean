import Mathlib.Algebra.Order.Ring.Nat
import MessageMachine.Proofs.Engine.Delivery
import MessageMachine.Proofs.Machine.Ageing

/-!
# Objects over a whole history

The keeper of an engine creates objects and deletes them, changes them in between, and has messages
sent to them, whose handlers change them as well.  Each of these is a `Treatment`.  However they are
mixed, an object keeps its number from its creation on, no number is given out twice, and what was
deleted never comes back.

Two lists are drawn from a history: of the numbers that were given out, and of those that were
deleted since.  Each treatment keeps the accounts (`Engine.accounts_treat`), and so a whole history
does (`Engine.accounts_treatAll`).  All that can be asked about the identity of objects is answered
by the two lists (`Engine.identities_kept`).
-/

namespace MessageMachine

/-- Something that is done with the objects of an engine, or may have to do with them. -/
inductive Treatment where
  /-- An instance of a class is created. -/
  | create (r : Record)
  | delete (id : ObjectId)
  /-- An object is changed, if it is found. -/
  | change (id : ObjectId) (c : Object.Change)
  | read (receiver : ObjectId) (frame : Frame) (kind : OperandKind) (data : UInt32)
  | write (receiver : ObjectId) (frame : Frame) (kind : OperandKind) (data : UInt32) (value : Value)
  /-- Classes come and go. -/
  | teach (classes : Directory)
  | send (s : Send)
  | post (p : Send)
  /-- A round of deliveries. -/
  | deliver
  | configure (settings : Settings)

/-- The number of instances that are created. -/
def Treatment.creates : Treatment → Nat
  | create _ => 1
  | _ => 0

namespace Engine

variable {R : Population → Population → Prop}

/-- The engine after a treatment. -/
def treat (e : Engine) : Treatment → Engine
  | .create r => e.withObjects (e.world.objects.create r).2
  | .delete id => e.withObjects (e.world.objects.tryDelete id).2
  | .change id c => e.withObjects (e.world.objects.update id c.apply)
  | .read receiver frame kind data => { e with world := (e.world.read receiver frame kind data).2 }
  | .write receiver frame kind data value =>
    { e with world := (e.world.write receiver frame kind data value).2 }
  | .teach classes => e.act (.lend e.world.objects classes)
  | .send s => e.act (.send s)
  | .post p => e.act (.post p)
  | .deliver => e.act .deliver
  | .configure settings => e.act (.configure settings)

/-- The engine after a history of treatments. -/
def treatAll (e : Engine) (ts : List Treatment) : Engine := ts.foldl treat e

/-- What the treatments of a history come to, one after another. -/
def gather {α : Type} (f : Engine → Treatment → List α) : Engine → List Treatment → List α
  | _, [] => []
  | e, t :: ts => f e t ++ (e.treat t).gather f ts

/-- The number that is given out. -/
def createdBy (e : Engine) : Treatment → List ObjectId
  | .create r => [(e.world.objects.create r).1]
  | _ => []

/-- The number under which deleting has found something to delete. -/
def reportedBy (e : Engine) : Treatment → List ObjectId
  | .delete id => if (e.world.objects.tryDelete id).1 then [id] else []
  | _ => []

/-- Who is deleted: by the keeper, or by native functions in the course of sends. -/
def deletedBy (e : Engine) (t : Treatment) : List ObjectId :=
  match t with
  | .send _ | .deliver => e.world.objects.gone (e.treat t).world.objects
  | _ => e.reportedBy t

/-- The number of instances that a history creates. -/
def creates (ts : List Treatment) : Nat := (ts.map Treatment.creates).sum

theorem creates_cons (t : Treatment) (ts : List Treatment) :
    creates (t :: ts) = t.creates + creates ts :=
  List.sum_cons

theorem creates_append (ts us : List Treatment) : creates (ts ++ us) = creates ts + creates us := by
  rw [creates, List.map_append, List.sum_append_nat]
  rfl

section

variable {α : Type} (f : Engine → Treatment → List α)

theorem treatAll_append (e : Engine) (ts us : List Treatment) :
    e.treatAll (ts ++ us) = (e.treatAll ts).treatAll us :=
  List.foldl_append

theorem gather_append (e : Engine) (ts us : List Treatment) :
    e.gather f (ts ++ us) = e.gather f ts ++ (e.treatAll ts).gather f us := by
  induction ts generalizing e with
  | nil => rfl
  | cons t ts ih =>
    rw [List.cons_append, gather, gather, ih, List.append_assoc]
    rfl

end

theorem natives_treat (e : Engine) (t : Treatment) : (e.treat t).natives = e.natives := by
  cases t with
  | teach | send | post | deliver | configure => exact e.natives_act _
  | create | delete | change | read | write => rfl

/-! ## Sends -/

section

variable [Std.Refl R] [IsTrans Population R] (census : ∀ p p', p.SameCensus p' → R p p')

include census

/-- A send acts within what the native functions act within. -/
theorem objects_send (e : Engine) (hn : e.natives.ActsWithin R) (s : Send) :
    R e.world.objects (e.send s).2.world.objects :=
  Machine.objects_run census e.environment hn (e.start s)

theorem objects_deliverPost (e : Engine) (hn : e.natives.ActsWithin R) (s : Send) :
    R e.world.objects (e.deliverPost s).world.objects := by
  have after := e.objects_send census hn s
  unfold deliverPost
  generalize e.send s = outcome at after
  match outcome with
  | (.ok _, _) => exact after
  | (.error _, _) => exact after

theorem objects_deliverOldest (count : Nat) (e : Engine) (hn : e.natives.ActsWithin R) :
    R e.world.objects (e.deliverOldest count).2.world.objects := by
  induction count generalizing e with
  | zero => exact refl_of R _
  | succ count ih =>
    cases waiting : e.world.posts.waiting with
    | nil =>
      rw [(deliverOldest_of_empty (count + 1) waiting).1]
      exact refl_of R _
    | cons post others =>
      rw [(deliverOldest_of_cons count waiting).1]
      refine trans_of R (e.popped.objects_deliverPost census hn post) (ih _ ?_)
      rw [natives_deliverPost]
      exact hn

/-- Sends and rounds of deliveries act within what the native functions act within. -/
theorem objects_treat (e : Engine) (hn : e.natives.ActsWithin R) {t : Treatment}
    (sends : (∃ s, t = .send s) ∨ t = .deliver) :
    R e.world.objects (e.treat t).world.objects := by
  rcases sends with ⟨s, rfl⟩ | rfl
  · exact e.objects_send census hn s
  · exact e.objects_deliverOldest census _ hn

end

/-! ## Accounts -/

/-- **A treatment keeps the accounts.** -/
theorem accounts_treat (e : Engine) (hn : e.natives.ActsWithin Population.Ages)
    {created deleted : List ObjectId} (h : e.world.objects.Accounts created deleted) (t : Treatment)
    (room : created.length + t.creates ≤ UInt32.size) :
    (e.treat t).world.objects.Accounts (created ++ e.createdBy t) (deleted ++ e.deletedBy t) := by
  have same {objects : Population} (census : e.world.objects.SameCensus objects) :
      objects.Accounts (created ++ []) (deleted ++ []) := by
    rw [List.append_nil, List.append_nil]
    exact h.of_census census
  have sends {t : Treatment} (sends : (∃ s, t = .send s) ∨ t = .deliver) :
      (e.treat t).world.objects.Accounts (created ++ [])
        (deleted ++ e.world.objects.gone (e.treat t).world.objects) := by
    rw [List.append_nil]
    exact h.ages (e.objects_treat (fun _ _ => Population.Ages.of_census) hn sends)
  cases t with
  | create r =>
    have made := h.create (Nat.lt_of_succ_le room) r
    rw [← List.append_nil deleted] at made
    exact made
  | delete id =>
    have gone := h.tryDelete id
    rw [← List.append_nil created] at gone
    exact gone
  | change id c => exact same (e.world.objects.census_update id c)
  | read receiver frame kind data => exact same (e.world.census_read receiver frame kind data)
  | write receiver frame kind data value =>
    exact same (e.world.census_write receiver frame kind data value)
  | send s => exact sends (.inl ⟨s, rfl⟩)
  | deliver => exact sends (.inr rfl)
  | post p =>
    refine same ?_
    show e.world.objects.SameCensus ((e.post? p).getD e).world.objects
    unfold post?
    cases e.world.posts.push? p <;> rfl
  | teach | configure => exact same rfl

theorem length_createdBy (e : Engine) (t : Treatment) : (e.createdBy t).length = t.creates := by
  cases t <;> rfl

theorem length_created (e : Engine) (ts : List Treatment) :
    (e.gather createdBy ts).length = creates ts := by
  induction ts generalizing e with
  | nil => rfl
  | cons t ts ih =>
    rw [gather, List.length_append, ih, length_createdBy]
    rfl

/-- **A history keeps the accounts.** -/
theorem accounts_treatAll (e : Engine) (hn : e.natives.ActsWithin Population.Ages)
    {created deleted : List ObjectId} (h : e.world.objects.Accounts created deleted)
    (ts : List Treatment) (room : created.length + creates ts ≤ UInt32.size) :
    (e.treatAll ts).world.objects.Accounts (created ++ e.gather createdBy ts)
      (deleted ++ e.gather deletedBy ts) := by
  induction ts generalizing e created deleted with
  | nil =>
    rw [gather, gather, List.append_nil, List.append_nil]
    exact h
  | cons t ts ih =>
    rw [creates_cons, ← Nat.add_assoc] at room
    have first := e.accounts_treat hn h t (Nat.le_trans (Nat.le_add_right _ _) room)
    rw [gather, gather, ← List.append_assoc, ← List.append_assoc]
    refine ih (e.treat t) (by rw [natives_treat]; exact hn) first ?_
    rw [List.length_append, length_createdBy]
    exact room

/-! ## Deletions -/

theorem gather_sublist {α : Type} {f g : Engine → Treatment → List α}
    (sub : ∀ e t, (f e t).Sublist (g e t)) (e : Engine) (ts : List Treatment) :
    (e.gather f ts).Sublist (e.gather g ts) := by
  induction ts generalizing e with
  | nil => exact .refl []
  | cons t ts ih => exact (sub e t).append (ih (e.treat t))

theorem reportedBy_sublist (e : Engine) (t : Treatment) :
    (e.reportedBy t).Sublist (e.deletedBy t) := by
  cases t with
  | send | deliver => exact List.nil_sublist _
  | _ => exact .refl _

/-- With the standard functions, nobody but the keeper deletes. -/
theorem deletedBy_eq (e : Engine) (hn : e.natives.IsStandard) {created deleted : List ObjectId}
    (h : e.world.objects.Accounts created deleted) (t : Treatment) :
    e.deletedBy t = e.reportedBy t := by
  have sends {t : Treatment} (sends : (∃ s, t = .send s) ∨ t = .deliver) :
      e.world.objects.gone (e.treat t).world.objects = [] :=
    h.gone_eq_nil (e.objects_treat (fun _ _ same => same) hn.actsWithin sends)
  cases t with
  | send s => exact sends (.inl ⟨s, rfl⟩)
  | deliver => exact sends (.inr rfl)
  | _ => rfl

theorem deleted_eq (e : Engine) (hn : e.natives.IsStandard) {created deleted : List ObjectId}
    (h : e.world.objects.Accounts created deleted) (ts : List Treatment)
    (room : created.length + creates ts ≤ UInt32.size) :
    e.gather deletedBy ts = e.gather reportedBy ts := by
  induction ts generalizing e created deleted with
  | nil => rfl
  | cons t ts ih =>
    rw [creates_cons, ← Nat.add_assoc] at room
    have ages := hn.actsWithin.mono fun _ _ => Population.Ages.of_census
    have first := e.accounts_treat ages h t (Nat.le_trans (Nat.le_add_right _ _) room)
    rw [gather, gather, e.deletedBy_eq hn h]
    refine congrArg _ (ih (e.treat t) (by rw [natives_treat]; exact hn) first ?_)
    rw [List.length_append, length_createdBy]
    exact room

/-- **Objects keep their identity over whole histories.**  Take an engine that has no objects
yet, and whose native functions let them age at most.  Let a history create no more objects than
there are numbers.

* The numbers are given out in order: each creation gives the number of creations before it.
* Under a number an object is found just if it was created and not deleted since, and the object has
  that number.  A change reaches this object, and no other.
* Deleting reports that there was something to delete just in that case.  So whoever was deleted was
  deleted once, and with one more attempt to delete it, each object that was created has been
  deleted exactly once.  All deletions were reported to the keeper, unless native functions have
  deleted objects; the standard ones have not.
* Who was deleted is not found again, whatever is done later.
* The live objects are those that were created and not deleted, in the order of their numbers. -/
theorem identities_kept (e : Engine) (fresh : e.world.objects = {})
    (hn : e.natives.ActsWithin Population.Ages) (ts : List Treatment)
    (few : creates ts ≤ UInt32.size) :
    let objects := (e.treatAll ts).world.objects
    let created := e.gather createdBy ts
    let deleted := e.gather deletedBy ts
    created.map ObjectId.slot = List.range (creates ts) ∧
    (∀ id, (objects.get? id).isSome ↔ id ∈ created ∧ id ∉ deleted) ∧
    (∀ id o, objects.get? id = some o → o.id = id) ∧
    (∀ id (c : Object.Change) n, (objects.update id c.apply).get? n =
      if n = id then (objects.get? n).map c.apply else objects.get? n) ∧
    (∀ id, (objects.tryDelete id).1 = true ↔ id ∈ created ∧ id ∉ deleted) ∧
    deleted.Nodup ∧
    (∀ id, (e.gather deletedBy (ts ++ [.delete id])).count id = if id ∈ created then 1 else 0) ∧
    (e.gather reportedBy ts).Sublist deleted ∧
    (e.natives.IsStandard → e.gather reportedBy ts = deleted) ∧
    (∀ id ∈ deleted, ∀ more, creates (ts ++ more) ≤ UInt32.size →
      (e.treatAll (ts ++ more)).world.objects.get? id = none) ∧
    objects.live.map Object.id = created.filter (fun id => id ∉ deleted) ∧
    (objects.live.map Object.id).Pairwise (fun n n' => n.slot < n'.slot) ∧
    ∀ o, o ∈ objects.live ↔ objects.get? o.id = some o := by
  intro objects created deleted
  have start : e.world.objects.Accounts [] [] := fresh ▸ .empty
  have accounts (ts : List Treatment) (few : creates ts ≤ UInt32.size) :
      (e.treatAll ts).world.objects.Accounts (e.gather createdBy ts) (e.gather deletedBy ts) :=
    e.accounts_treatAll hn start ts (by rwa [List.length_nil, Nat.zero_add])
  have now : objects.Accounts created deleted := accounts ts few
  refine ⟨?_, now.isSome_get?_iff, fun id o found => now.id_of_get? found,
    fun id c n => objects.get?_update id n c, now.isSome_get?_iff, now.once, fun id => ?_,
    gather_sublist reportedBy_sublist e ts, fun standard => ?_, fun id gone more few' => ?_,
    now.live_eq, now.pairwise_live, now.mem_live_iff⟩
  · rw [now.serial, length_created]
  · -- one more deletion keeps the accounts, and gives no number out
    have next := accounts (ts ++ [.delete id]) (by rwa [creates_append])
    have same : e.gather createdBy (ts ++ [.delete id]) = created :=
      (e.gather_append createdBy ts _).trans (List.append_nil _)
    have hidden : (e.treatAll (ts ++ [.delete id])).world.objects.get? id = none := by
      rw [treatAll_append]
      exact (objects.get?_delete id id).trans (if_pos rfl)
    have gone : id ∈ e.gather deletedBy (ts ++ [.delete id]) ↔ id ∈ created := by
      refine ⟨fun mem => same ▸ next.known mem, fun known => ?_⟩
      by_contra live
      have found := (next.isSome_get?_iff id).mpr ⟨same.symm ▸ known, live⟩
      rw [hidden] at found
      cases found
    rw [next.once.count]
    simp only [gone]
  · refine (e.deleted_eq standard start ts ?_).symm
    rwa [List.length_nil, Nat.zero_add]
  · have later := (accounts (ts ++ more) few').isSome_get?_iff id
    rw [← Option.not_isSome_iff_eq_none, later, e.gather_append deletedBy]
    exact fun found => found.2 (List.mem_append_left _ gone)

/-- A function that deletes the object whose handler calls it. -/
def reaper : Native where
  name := "Reap"
  run c w :=
    let (deleted, objects) := w.objects.tryDelete c.receiver
    (.value (.truth deleted), { w with objects })

/-- An engine whose natives are the standard functions and one that deletes. -/
def reaping : Engine :=
  { ofSettings {} with natives := NativeTable.standard.setSlot 3 (some reaper) }

theorem reaping_actsWithin : reaping.natives.ActsWithin Population.Ages := by
  intro index n slot
  have table : reaping.natives.slot index = if 3 = index then some reaper else _ :=
    NativeTable.slot_setSlot _ 3 index _
  rw [table] at slot
  split_ifs at slot
  · cases slot
    exact fun c w => .delete w.objects c.receiver
  · have standard := NativeTable.isStandard_standard.actsWithin index n slot
    exact fun c w => .of_census (standard c w)

theorem identities_kept_reaping :
    let cls : Class :=
      { id := ⟨1⟩, name := "A", properties := [⟨⟨0⟩, .nil⟩]
        handlers := (Handler.ofBody ⟨1⟩ "Run" #[0, 0, 0x60, 3, 0, 0, 0x80]).toOption.toList }
    let classes := ({} : Directory).insert cls
    let before := [Treatment.teach classes, .create ⟨0, cls⟩, .create ⟨0, cls⟩,
      .change ⟨1⟩ (.setClass ⟨2⟩), .change ⟨1⟩ (.setProperty 0 (.int 5)),
      .change ⟨1⟩ (.setGarbage 7), .change ⟨0⟩ .dropCache, .change ⟨0⟩ (.resolve classes)]
    let ts := before ++ [.send ⟨⟨0⟩, ⟨1⟩, []⟩]
    reaping.world.objects = {} ∧ reaping.natives.ActsWithin Population.Ages ∧
      creates ts ≤ UInt32.size ∧ reaping.gather createdBy ts = [⟨0⟩, ⟨1⟩] ∧
      ⟨0⟩ ∈ reaping.gather deletedBy ts ∧
      (reaping.gather deletedBy (ts ++ [.delete ⟨1⟩])).count ⟨1⟩ = 1 := by
  intro cls classes before ts
  have few : creates ts ≤ UInt32.size := by decide
  obtain ⟨numbers, found, -, -, -, -, once, -⟩ :=
    identities_kept reaping rfl reaping_actsWithin ts few
  have created : reaping.gather createdBy ts = [⟨0⟩, ⟨1⟩] :=
    List.map_injective_iff.mpr ObjectId.slot_injective numbers
  -- the handler deletes the object that it runs for
  let e := reaping.treatAll before
  have halts : ((Machine.step e.environment)^[6]
      (e.start ⟨⟨0⟩, ⟨1⟩, []⟩)).control.isHalted = true := by decide +kernel
  have reaped : (e.send ⟨⟨0⟩, ⟨1⟩, []⟩).2.world.objects.get? ⟨0⟩ = none := by
    rw [send_eq, Machine.run_eq_iterate _ 6 _ halts]
    decide +kernel
  refine ⟨rfl, reaping_actsWithin, few, created, ?_, ?_⟩
  · by_contra live
    have there := (found ⟨0⟩).mpr ⟨by rw [created]; exact .head _, live⟩
    rw [show (reaping.treatAll ts).world.objects.get? ⟨0⟩ = none from reaped] at there
    cases there
  · rw [once, created]
    rfl

end Engine

end MessageMachine
