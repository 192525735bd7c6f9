import MessageMachine.Proofs.Engine.History
import MessageMachine.Proofs.Machine.Lockstep
import MessageMachine.Proofs.Machine.Reporting

/-!
# Diagnostics are transparent

The settings of an engine can ask for diagnostics: unwritten locals are kept track of, handlers are
timed, instructions are recorded.  None of this changes what is executed.  Neither do the statistics
that an engine has kept so far, nor what its clock shows.

`World.Matches` says what two worlds have in common when only diagnostics tell them apart: objects,
classes and posts, and the records of faults since two given points of their journals.  It is a
congruence (`World.congruence_matches`), so machines that start alike in such worlds go on in
lockstep.  Two engines with the same limits then answer every top-level send alike, and after any
history their worlds match again (`Engine.Alike.after`).
-/

namespace MessageMachine

/-! ## Worlds that match -/

/-- The records of the gravest level, in order. -/
def Journal.errors (j : Journal) : List Entry := j.toList.filter Entry.isError

theorem Journal.errors_push (j : Journal) (x : Entry) :
    errors (j.push x) = j.errors ++ [x].filter Entry.isError := by
  rw [errors, Array.toList_push, List.filter_append, errors]

theorem Journal.errors_push_of_quiet (j : Journal) {x : Entry} (quiet : x.isError = false) :
    errors (j.push x) = j.errors := by
  rw [errors_push, List.filter_singleton, quiet]
  exact List.append_nil _

/-- A remark is not of the gravest level. -/
theorem Entry.isError_of_isRemark {x : Entry} (h : x.isRemark = true) : x.isError = false := by
  rw [isError_eq, (quiet_of_isRemark h).1]
  rfl

/-- The same objects, classes and posts; and the same records of the gravest level, after `before`
in the first world and after `before'` in the second. -/
structure World.Matches (before before' : List Entry) (w w' : World) : Prop where
  objects : w.objects = w'.objects
  classes : w.classes = w'.classes
  posts : w.posts = w'.posts
  errors : ∃ added, w.journal.errors = before ++ added ∧ w'.journal.errors = before' ++ added

namespace World.Matches

variable {before before' : List Entry} {w w' : World}

theorem log (h : w.Matches before before' w') (x : Entry) :
    (w.log x).Matches before before' (w'.log x) := by
  obtain ⟨added, e, e'⟩ := h.errors
  refine ⟨h.objects, h.classes, h.posts, added ++ [x].filter Entry.isError, ?_, ?_⟩
  · rw [World.log, Journal.errors_push, e, List.append_assoc]
  · rw [World.log, Journal.errors_push, e', List.append_assoc]

/-- A record of another level does not count. -/
theorem log_left (h : w.Matches before before' w') {x : Entry} (quiet : x.isError = false) :
    (w.log x).Matches before before' w' := by
  refine ⟨h.objects, h.classes, h.posts, ?_⟩
  rw [World.log, Journal.errors_push_of_quiet _ quiet]
  exact h.errors

theorem log_right (h : w.Matches before before' w') {x : Entry} (quiet : x.isError = false) :
    w.Matches before before' (w'.log x) := by
  refine ⟨h.objects, h.classes, h.posts, ?_⟩
  rw [World.log, Journal.errors_push_of_quiet _ quiet]
  exact h.errors

theorem read (h : w.Matches before before' w') {f f' : Frame} (frames : f.Alike f')
    (receiver : ObjectId) (kind : OperandKind) (data : UInt32) :
    (w.read receiver f kind data).1 = (w'.read receiver f' kind data).1 ∧
      (w.read receiver f kind data).2.Matches before before' (w'.read receiver f' kind data).2 := by
  obtain ⟨same, objects, e, e'⟩ :=
    World.read_of_same h.objects h.classes frames receiver kind data
  rw [e, e']
  exact ⟨same, rfl, h.classes, h.posts, h.errors⟩

theorem write (h : w.Matches before before' w') {f f' : Frame} (frames : f.Alike f')
    (receiver : ObjectId) (place : Place) (index : UInt32) (value : Value) :
    Outcomes Frame.Alike (w.write receiver f place.kind index value).1
        (w'.write receiver f' place.kind index value).1 ∧
      (w.write receiver f place.kind index value).2.Matches before before'
        (w'.write receiver f' place.kind index value).2 := by
  obtain ⟨same, objects, e, e'⟩ := World.write_of_same h.objects frames receiver place index value
  rw [e, e']
  exact ⟨same, rfl, h.classes, h.posts, h.errors⟩

end World.Matches

/-- **No run can tell apart worlds that match.** -/
theorem World.congruence_matches (before before' : List Entry) :
    World.Congruence (World.Matches before before') where
  read h _ _ frames := h.read frames
  write h _ _ frames := h.write frames
  posts h := h.posts
  post h _ := ⟨h.objects, h.classes, rfl, h.errors⟩
  classes h := h.classes
  classOf h id := by rw [h.objects]
  clock h _ _ := ⟨h.objects, h.classes, h.posts, h.errors⟩
  log h := h.log
  remark h _ remark := h.log_left (Entry.isError_of_isRemark remark)
  remark' h _ remark := h.log_right (Entry.isError_of_isRemark remark)

/-! ## Engines that are alike -/

/-- The same limits.  Diagnostics may be asked for or not. -/
structure Settings.Alike (s s' : Settings) : Prop where
  maxStatements : s.maxStatements = s'.maxStatements
  maxDepth : s.maxDepth = s'.maxDepth
  postCapacity : s.postCapacity = s'.postCapacity

/-- The same deed; settings have the same limits. -/
inductive Deed.Alike : Deed → Deed → Prop
  | send (s : Send) : Alike (.send s) (.send s)
  | post (p : Send) : Alike (.post p) (.post p)
  | deliver : Alike .deliver .deliver
  | configure {s s' : Settings} (h : s.Alike s') : Alike (.configure s) (.configure s')
  | lend (objects : Population) (classes : Directory) :
    Alike (.lend objects classes) (.lend objects classes)

/-- The same limits and natives, and worlds that match.  Statistics are left open. -/
structure Engine.Alike (before before' : List Entry) (e e' : Engine) : Prop where
  settings : e.settings.Alike e'.settings
  natives : e'.natives = e.natives
  standard : e.natives.IsStandard
  world : e.world.Matches before before' e'.world

/-- What the keeper of an engine learns of a top-level send: its answer, and the statements and
native calls that are counted for it. -/
structure Outcome where
  result : Except Fault Value
  statements : Nat
  nativeCalls : Nat

/-- What comes out of a top-level send. -/
def Sending.outcome (s : Sending) : Send × Outcome :=
  let m := (s.engine.start s.send).run s.engine.environment
  (s.send, ⟨(s.engine.send s.send).1, m.session.statements, m.session.nativeCalls⟩)

namespace Engine.Alike

variable {before before' : List Entry} {e e' : Engine}

/-- The run of a top-level send is in lockstep. -/
theorem run (h : e.Alike before before' e') (send : Send) :
    ((e.start send).run e.environment).Alike (World.Matches before before')
      ((e'.start send).run e'.environment) := by
  have environment : e.environment.Alike e'.environment :=
    ⟨h.natives, h.settings.maxStatements, h.settings.maxDepth⟩
  have start : (e.start send).Alike (World.Matches before before') (e'.start send) := by
    refine ⟨⟨⟨h.world.objects, h.world.classes, ?_, h.world.errors⟩, rfl, rfl, rfl⟩, .nil,
      .dispatch send⟩
    show { e.world.posts with capacity := e.settings.postCapacity } =
      { e'.world.posts with capacity := e'.settings.postCapacity }
    rw [h.world.posts, h.settings.postCapacity]
  exact start.run (World.congruence_matches before before') environment h.standard

/-- **Engines that are alike answer a send alike**, count alike, and are alike after it. -/
theorem send (h : e.Alike before before' e') (send : Send) :
    (e.send send).1 = (e'.send send).1 ∧ (e.send send).2.Alike before before' (e'.send send).2 ∧
      Sending.outcome ⟨e, send⟩ = Sending.outcome ⟨e', send⟩ := by
  have run := h.run send
  refine ⟨run.result, ⟨h.settings, h.natives, h.standard, ?_⟩, ?_⟩
  · have ended := (World.congruence_matches before before').clock run.session.world
      (((e.start send).run e.environment).session.world.clock.read).2
      (((e'.start send).run e'.environment).session.world.clock.read).2
    exact (ended.log_left rfl).log_right rfl
  · unfold Sending.outcome
    dsimp only
    rw [send_eq, send_eq, run.result, run.session.statements, run.session.nativeCalls]

theorem deliverPost (h : e.Alike before before' e') (post : Send) :
    (e.deliverPost post).Alike before before' (e'.deliverPost post) := by
  obtain ⟨result, after, -⟩ := h.send post
  unfold Engine.deliverPost
  generalize e.send post = outcome at result after
  generalize e'.send post = outcome' at result after
  obtain ⟨r, e₁⟩ := outcome
  obtain ⟨r', e₁'⟩ := outcome'
  cases result
  cases r with
  | ok v => exact after
  | error f => exact ⟨after.settings, after.natives, after.standard, after.world.log _⟩

theorem popped (h : e.Alike before before' e') : e.popped.Alike before before' e'.popped := by
  refine ⟨h.settings, h.natives, h.standard, h.world.objects, h.world.classes, ?_, h.world.errors⟩
  unfold Engine.popped
  rw [h.world.posts]

/-- A round of deliveries makes the same sends, and they come out alike. -/
theorem deliverOldest (h : e.Alike before before' e') (count : Nat) :
    (e.deliverOldest count).2.Alike before before' (e'.deliverOldest count).2 ∧
      (e.oldestDeliveries count).map Sending.outcome =
        (e'.oldestDeliveries count).map Sending.outcome := by
  induction count generalizing e e' with
  | zero => exact ⟨h, rfl⟩
  | succ count ih =>
    have same : e.world.posts.waiting = e'.world.posts.waiting := by rw [h.world.posts]
    cases waiting : e.world.posts.waiting with
    | nil =>
      obtain ⟨round, none⟩ := deliverOldest_of_empty (count + 1) waiting
      obtain ⟨round', none'⟩ := deliverOldest_of_empty (count + 1) (same ▸ waiting)
      rw [round, round', none, none']
      exact ⟨h, rfl⟩
    | cons post others =>
      obtain ⟨round, sends⟩ := deliverOldest_of_cons count waiting
      obtain ⟨round', sends'⟩ := deliverOldest_of_cons count (same ▸ waiting)
      obtain ⟨after, later⟩ := ih (h.popped.deliverPost post)
      rw [round, round', sends, sends', List.map_cons, List.map_cons, later,
        (h.popped.send post).2.2]
      exact ⟨after, rfl⟩

/-- **Engines that are alike are alike after a deed**, and the sends that it makes
come out alike. -/
theorem act (h : e.Alike before before' e') {d d' : Deed} (hd : d.Alike d') :
    (e.act d).Alike before before' (e'.act d') ∧
      (e.sendingsOf d).map Sending.outcome = (e'.sendingsOf d').map Sending.outcome := by
  cases hd with
  | send s =>
    obtain ⟨-, after, outcome⟩ := h.send s
    exact ⟨after, congrArg ([·]) outcome⟩
  | post p =>
    refine ⟨?_, rfl⟩
    show Engine.Alike before before' ((e.post? p).getD e) ((e'.post? p).getD e')
    unfold Engine.post?
    rw [h.world.posts]
    cases e'.world.posts.push? p with
    | none => exact h
    | some posts =>
      exact ⟨h.settings, h.natives, h.standard, h.world.objects, h.world.classes, rfl,
        h.world.errors⟩
  | deliver =>
    obtain ⟨after, outcomes⟩ := h.deliverOldest e.world.posts.size
    have size : e.world.posts.size = e'.world.posts.size := by rw [h.world.posts]
    show (e.deliverOldest _).2.Alike before before' (e'.deliverOldest _).2 ∧
      (e.oldestDeliveries _).map _ = (e'.oldestDeliveries _).map _
    rw [← size]
    exact ⟨after, outcomes⟩
  | configure settings => exact ⟨⟨settings, h.natives, h.standard, h.world⟩, rfl⟩
  | lend objects classes =>
    exact ⟨⟨h.settings, h.natives, h.standard, rfl, rfl, h.world.posts, h.world.errors⟩, rfl⟩

/-- **Engines that are alike are alike after a history**, and the sends that it makes
come out alike. -/
theorem after (h : e.Alike before before' e') {deeds deeds' : List Deed}
    (hd : List.Forall₂ Deed.Alike deeds deeds') :
    (e.after deeds).Alike before before' (e'.after deeds') ∧
      (e.sendings deeds).map Sending.outcome = (e'.sendings deeds').map Sending.outcome := by
  induction hd generalizing e e' with
  | nil => exact ⟨h, rfl⟩
  | cons deed _ ih =>
    obtain ⟨next, outcomes⟩ := h.act deed
    obtain ⟨last, later⟩ := ih next
    refine ⟨last, ?_⟩
    rw [sendings, sendings, List.map_append, List.map_append, outcomes, later]

end Engine.Alike

/-! ## Diagnostics -/

namespace Engine

/-- **Diagnostics never change execution.**  Let two engines have the same standard natives and the
same objects, classes and posts, and let their settings and those of the two histories have the same
limits; they may ask for different diagnostics, their statistics and journals may hold anything, and
their clocks may show any times.

Then the two histories make the same top-level sends, deliveries included.  Each has the same answer
and counts the same statements and native calls.  They leave the same objects, classes and posts,
and record the same at the gravest level. -/
theorem diagnostics_unobserved (e e' : Engine) (hn : e.natives.IsStandard)
    (natives : e'.natives = e.natives) (settings : e.settings.Alike e'.settings)
    (objects : e.world.objects = e'.world.objects) (classes : e.world.classes = e'.world.classes)
    (posts : e.world.posts = e'.world.posts) (deeds deeds' : List Deed)
    (hd : List.Forall₂ Deed.Alike deeds deeds') :
    let now := e.after deeds
    let now' := e'.after deeds'
    (e.sendings deeds).map Sending.outcome = (e'.sendings deeds').map Sending.outcome ∧
    now.world.objects = now'.world.objects ∧
    now.world.classes = now'.world.classes ∧
    now.world.posts = now'.world.posts ∧
    ∃ recorded,
      now.world.journal.errors = e.world.journal.errors ++ recorded ∧
      now'.world.journal.errors = e'.world.journal.errors ++ recorded := by
  intro now now'
  have alike : e.Alike e.world.journal.errors e'.world.journal.errors e' :=
    ⟨settings, natives, hn, objects, classes, posts, [], (List.append_nil _).symm,
      (List.append_nil _).symm⟩
  obtain ⟨last, outcomes⟩ := alike.after hd
  exact ⟨outcomes, last.world.objects, last.world.classes, last.world.posts, last.world.errors⟩

/-- An engine with one object, whose handler for message 1 makes a send that fails, and then answers
with a local that it has never written. -/
def plain : Engine :=
  ofBody {} []
    #[1, 0, 0x60, 0, 2, 2, 0, 0, 0, 0x20, 2, 9, 0, 0, 0xB0, 0, 0x90, 0, 0, 0, 0]

/-- The same engine at another time, asked for all diagnostics. -/
def watched : Engine :=
  { plain with
    settings := { trackLocals := true, profile := true, traceInstructions := true }
    statistics := { messages := 7 }
    world := { plain.world with clock := .manual 5 } }

theorem diagnostics_unobserved_watched :
    let deeds := [Deed.send ⟨⟨0⟩, ⟨1⟩, []⟩]
    plain.natives.IsStandard ∧ watched.natives = plain.natives ∧
      plain.settings.Alike watched.settings ∧ plain.world.objects = watched.world.objects ∧
      plain.world.classes = watched.world.classes ∧ plain.world.posts = watched.world.posts ∧
      List.Forall₂ Deed.Alike deeds deeds ∧
      (plain.sendings deeds).map Sending.outcome = (watched.sendings deeds).map Sending.outcome ∧
      (watched.after deeds).world.journal.errors.length = 1 := by
  intro deeds
  have natives : plain.natives.IsStandard := NativeTable.isStandard_standard
  have settings : plain.settings.Alike watched.settings := ⟨rfl, rfl, rfl⟩
  have alike : List.Forall₂ Deed.Alike deeds deeds := .cons (.send _) .nil
  have halts : ((Machine.step plain.environment)^[8]
      (plain.start ⟨⟨0⟩, ⟨1⟩, []⟩)).control.isHalted = true := by decide +kernel
  have recorded : (plain.after deeds).world.journal.errors.length = 1 := by
    show (plain.send _).2.world.journal.errors.length = 1
    rw [send_eq, Machine.run_eq_iterate _ 8 _ halts]
    decide +kernel
  obtain ⟨outcomes, -, -, -, added, errors, errors'⟩ :=
    diagnostics_unobserved plain watched natives rfl settings rfl rfl rfl deeds deeds alike
  refine ⟨natives, rfl, settings, rfl, rfl, rfl, alike, outcomes, ?_⟩
  rw [errors', show watched.world.journal.errors = plain.world.journal.errors from rfl, ← errors]
  exact recorded

end Engine

end MessageMachine
