import MessageMachine.Proofs.Engine.Delivery
import MessageMachine.Proofs.Machine.Nil

/-!
# Nil over whole histories

Nil is meant to have no payload, but a constant in a body, or the default of a parameter, is taken
as it stands: packed data with the tag of nil may have any payload.  Such a nil counts as true and
is not equal to nil (`Engine.nil_with_payload`).

There is no other way for it to come about.  An engine is *plain* when no value in it is such a nil,
the code that its handlers may come to included (`Engine.Plain`).  It stays so over every history
that brings in plain values only (`Engine.nil_stays_plain`), and all its nils are one.
-/

namespace MessageMachine

/-- The result of a plain state that has halted is plain. -/
theorem Machine.Plain.result {m : Machine} (h : m.Plain) {v : Value} (same : m.result = .ok v) :
    v.Plain := by
  have control := h.control
  unfold Machine.result at same
  split at same
  · rename_i w e halted
    rw [halted] at control
    cases same
    exact control.1 _ rfl
  · cases same
  · cases same
    exact .nil

/-- What the deed brings in is plain. -/
def Deed.Plain : Deed → Prop
  | .send s | .post s => s.Plain
  | .deliver | .configure _ => True
  | .lend objects classes =>
    (∀ o ∈ objects.slots, o.Plain) ∧ (∀ r ∈ classes.living, ∀ v ∈ r.cls.vars, v.Plain) ∧
      classes.PlainCode

namespace Engine

/-- No value is a nil with a payload, wherever running code can come by it. -/
structure Plain (e : Engine) : Prop where
  world : e.world.Plain
  code : e.world.classes.PlainCode
  natives : e.natives.KeepsPlain
  classes : e.natives.KeepsClasses

namespace Plain

variable {e : Engine} {s : MessageMachine.Send}

/-- All states of a send are plain. -/
theorem states (h : e.Plain) (hs : s.Plain) : ∀ m ∈ e.states s, m.Plain := by
  have start : (e.start s).Plain :=
    ⟨⟨h.world.objects, h.world.vars, h.world.posts⟩, h.code, (fun c mem => by cases mem), hs⟩
  exact Machine.trace_invariant _
    (fun m running plain => (m.transition_step _ running).plain h.natives h.classes plain) _ start

/-- A send is answered with a plain value, and leaves a plain engine behind. -/
theorem send (h : e.Plain) (hs : s.Plain) :
    (∀ v, (e.send s).1 = .ok v → v.Plain) ∧ (e.send s).2.Plain := by
  have last := h.states hs _ (Machine.run_mem_trace _ _)
  exact ⟨fun v same => last.result same, last.world.of_eq rfl rfl rfl, last.code, h.natives,
    h.classes⟩

theorem deliverPost (h : e.Plain) (hs : s.Plain) : (e.deliverPost s).Plain := by
  have after := (h.send hs).2
  unfold Engine.deliverPost
  generalize e.send s = outcome at after
  match outcome with
  | (.ok _, _) => exact after
  | (.error _, _) => exact ⟨after.world.of_eq rfl rfl rfl, after.code, after.natives, after.classes⟩

/-- A plain engine delivers plain posts. -/
theorem popped (h : e.Plain) {others : List MessageMachine.Send}
    (waiting : e.world.posts.waiting = s :: others) : e.popped.Plain ∧ s.Plain := by
  have posts := h.world.posts
  rw [waiting] at posts
  obtain ⟨first, rest⟩ := List.forall_mem_cons.mp posts
  refine ⟨⟨⟨h.world.objects, h.world.vars, ?_⟩, h.code, h.natives, h.classes⟩, first⟩
  rw [posts_popped waiting]
  exact rest

theorem deliverOldest (h : e.Plain) (count : Nat) :
    (e.deliverOldest count).2.Plain ∧
      ∀ d ∈ e.oldestDeliveries count, d.engine.Plain ∧ d.send.Plain := by
  induction count generalizing e with
  | zero => exact ⟨h, fun d mem => by cases mem⟩
  | succ count ih =>
    cases waiting : e.world.posts.waiting with
    | nil =>
      obtain ⟨round, none⟩ := deliverOldest_of_empty (count + 1) waiting
      rw [round, none]
      exact ⟨h, fun d mem => by cases mem⟩
    | cons post others =>
      obtain ⟨round, sends⟩ := deliverOldest_of_cons count waiting
      obtain ⟨popped, first⟩ := h.popped waiting
      obtain ⟨after, later⟩ := ih (popped.deliverPost first)
      rw [round, sends]
      exact ⟨after, List.forall_mem_cons.mpr ⟨⟨popped, first⟩, later⟩⟩

theorem act (h : e.Plain) {d : Deed} (hd : d.Plain) :
    (e.act d).Plain ∧ ∀ s ∈ e.sendingsOf d, s.engine.Plain ∧ s.send.Plain := by
  cases d with
  | send s => exact ⟨(h.send hd).2, List.forall_mem_singleton.mpr ⟨h, hd⟩⟩
  | post p =>
    refine ⟨?_, fun s mem => by cases mem⟩
    show ((e.post? p).getD e).Plain
    unfold Engine.post? PostQueue.push?
    split
    · refine ⟨⟨h.world.objects, h.world.vars, ?_⟩, h.code, h.natives, h.classes⟩
      exact List.forall_mem_append.mpr ⟨h.world.posts, List.forall_mem_singleton.mpr hd⟩
    · exact h
  | deliver => exact h.deliverOldest _
  | configure => exact ⟨⟨h.world, h.code, h.natives, h.classes⟩, fun s mem => by cases mem⟩
  | lend objects classes =>
    obtain ⟨objects, vars, code⟩ := hd
    exact ⟨⟨⟨objects, vars, h.world.posts⟩, code, h.natives, h.classes⟩, fun s mem => by cases mem⟩

theorem after (h : e.Plain) {deeds : List Deed} (hd : ∀ d ∈ deeds, d.Plain) :
    (e.after deeds).Plain ∧ ∀ s ∈ e.sendings deeds, s.engine.Plain ∧ s.send.Plain := by
  induction deeds generalizing e with
  | nil => exact ⟨h, fun s mem => by cases mem⟩
  | cons d deeds ih =>
    obtain ⟨first, others⟩ := List.forall_mem_cons.mp hd
    obtain ⟨next, sends⟩ := h.act first
    obtain ⟨last, later⟩ := ih next others
    exact ⟨last, List.forall_mem_append.mpr ⟨sends, later⟩⟩

end Plain

/-- **Nil stays nil.**  Let an engine be plain, and let a history bring in plain values only.  Then
the engine stays plain, and so are all states of all sends, with all that is stored in them and on
its way, and all results.

What a statement reads through one of its operands is plain.  If it is nil, it has no payload, it is
false, and it is equal to every nil that is read. -/
theorem nil_stays_plain (e : Engine) (plain : e.Plain) (deeds : List Deed)
    (brings : ∀ d ∈ deeds, d.Plain) :
    (e.after deeds).Plain ∧
    ∀ s ∈ e.sendings deeds,
      (∀ v, (s.engine.send s.send).1 = .ok v → v.Plain) ∧
      ∀ m ∈ s.engine.states s.send, m.Plain ∧
        ∀ x, m.control = .execute x → ∀ o ∈ x.cursor.operands, ∀ v,
          (m.session.world.read x.receiver x.frame o.kind o.data).1 = .ok v →
            v.Plain ∧ (v.tag = .nil → v.isTrue = false ∧
              ∀ u : Value, u.Plain → u.tag = .nil →
                BinaryOp.equal.apply v u = .ok (.truth true)) := by
  obtain ⟨last, sends⟩ := plain.after brings
  refine ⟨last, fun s mem => ?_⟩
  obtain ⟨engine, send⟩ := sends s mem
  refine ⟨(engine.send send).1, fun m mem => ?_⟩
  have state := engine.states send m mem
  refine ⟨state, fun x control o mem v read => ?_⟩
  have known := state.control
  rw [control] at known
  obtain ⟨execution, ahead⟩ := known
  have value : v.Plain := (state.world.read _ execution.frame (ahead.operands o mem)).2 v read
  refine ⟨value, fun isNil => ⟨value.isTrue_eq_false isNil, fun u hu nil => ?_⟩⟩
  rw [value.eq_nil isNil, hu.eq_nil nil]
  rfl

/-- An engine with one object, whose handler for message 1 sets a local to nil, does so again as
long as that is true, and returns it. -/
def settling : Engine :=
  ofBody {} []
    #[1, 0, 8, 2, 0, 0, 0, 0, 0, 0, 0, 0, 68, 2, 0, 0, 0, 0, 0, 0, 0, 144, 0, 0, 0, 0]

theorem nil_stays_plain_settling :
    let send : Send := ⟨⟨0⟩, ⟨1⟩, []⟩
    let deeds := [Deed.send send, .post send, .deliver]
    settling.Plain ∧ (∀ d ∈ deeds, d.Plain) ∧ (settling.after deeds).Plain ∧
      (settling.send send).1 = .ok .nil ∧ Value.nil.Plain := by
  intro send deeds
  have seen : ∀ r ∈ settling.world.classes.records, ∀ h ∈ r.cls.handlers, h.IsClean ∧
      (∀ p ∈ h.parameters, p.default.Plain) ∧
        ∀ p ∈ h.disassembly.instructions, ∀ o ∈ p.2.operands, o.Plain := by decide +kernel
  have natives : settling.natives.IsStandard := NativeTable.isStandard_standard
  have plain : settling.Plain :=
    { world := by decide +kernel
      code := .of_records fun r listed h defines =>
        have ⟨clean, defaults, constants⟩ := seen r listed h defines
        clean.plain defaults constants
      natives := natives.keepsPlain
      classes := natives.keepsClasses }
  have brings : ∀ d ∈ deeds, d.Plain := by
    have hs : send.Plain := by decide
    exact List.forall_mem_cons.mpr
      ⟨hs, List.forall_mem_cons.mpr ⟨hs, List.forall_mem_singleton.mpr trivial⟩⟩
  have halts : ((Machine.step settling.environment)^[6]
      (settling.start send)).control.isHalted = true := by decide +kernel
  have answer : (settling.send send).1 = .ok .nil := by
    rw [send_eq, Machine.run_eq_iterate _ 6 _ halts]
    decide +kernel
  obtain ⟨last, sends⟩ := nil_stays_plain settling plain deeds brings
  exact ⟨plain, brings, last, answer, (sends _ (.head _)).1 _ answer⟩

/-- **A constant may be a nil with a payload.**  The world is plain and so is the send, and the body
is accepted; yet it returns such a nil, which is true and is not equal to nil. -/
theorem nil_with_payload :
    let e := ofBody {} [] #[0, 0, 0x98, 5, 0, 0, 0]
    let send : Send := ⟨⟨0⟩, ⟨1⟩, []⟩
    e.world.Plain ∧ e.natives.IsStandard ∧ send.Plain ∧
      (e.send send).1 = .ok ⟨.nil, 5⟩ ∧ (Value.mk .nil 5).isTrue = true ∧
      BinaryOp.equal.apply ⟨.nil, 5⟩ .nil = .ok (.truth false) := by
  intro e send
  have halts : ((Machine.step e.environment)^[5] (e.start send)).control.isHalted = true := by
    decide +kernel
  refine ⟨by decide +kernel, NativeTable.isStandard_standard, by decide, ?_, by decide, by decide⟩
  rw [send_eq, Machine.run_eq_iterate _ 5 _ halts]
  decide +kernel

end Engine

end MessageMachine
