import MessageMachine.Proofs.Code.Program

/-!
# From programs to bodies and back

A sound program is accepted, and the handler it gives disassembles into the instructions of the
program (`Program.toHandler_disassembly`).

While a program is being told to the assembler, the targets of its gotos are still open or count
from the first instruction.  `Program.draft` is what the code is then the encoding of.
`Program.Written` says that an assembly has come just so far with a program, and each directive
takes that from the program before it to the program with it (`Written.write`).  Three kinds of
directive only make the code longer.  Binding a label is the one that changes what is written
already, and since a label is given out once, it changes a single goto (`draft_bind`).

In the end all labels are bound, and the length of the header makes every target of the draft that
of the program (`draft_moved`).
-/

namespace MessageMachine

/-! ## What the assembler does when it is told something -/

namespace Sentence

variable {s : Sentence} {i : Instruction}

theorem target?_instruction (h : s.instruction = .ok i) : i.target? = none := by
  cases s with
  | load d v | leaveConstant v =>
    rw [instruction] at h
    cases o : Operand.ofValue v <;> rw [o] at h <;> cases h
    rfl
  | unary | binary | call | handOver | leave | line =>
    cases h
    rfl

theorem Writable.emits (h : s.Writable) : ∃ i, s.instruction = .ok i ∧ i.Encodable := by
  unfold Writable at h
  cases emits : s.instruction with
  | error u => rw [emits] at h; cases h
  | ok i => rw [emits] at h; exact ⟨i, rfl, h⟩

/-- A sentence is emitted at the end, or nothing is. -/
theorem run_write (s : Sentence) (a : Assembly) :
    s.write.run a = s.instruction.map fun i => ((), a.add i) := by
  have emitted : s.write.run a = s.instruction.map fun i => ((), a.emit i.bytes) := by
    cases s with
    | load d v =>
      rw [write, Assembler.load, Assembler.constant, instruction]
      cases Operand.ofValue v <;> rfl
    | leaveConstant v =>
      rw [write, Assembler.leaveConstant, Assembler.constant, instruction]
      cases Operand.ofValue v <;> rfl
    | unary | binary | call | handOver | leave | line => rfl
  rw [emitted]
  cases h : s.instruction with
  | error u => rfl
  | ok i => rw [Except.map, Except.map, Assembly.add_of_none (target?_instruction h)]

end Sentence

theorem Assembly.emit_emit (a : Assembly) (xs ys : List UInt8) :
    (a.emit xs).emit ys = a.emit (xs ++ ys) := by
  simp [emit]

namespace Assembler

theorem run_parameter {v : Value} (h : v.Packable) (id : ParameterId) (a : Assembly) :
    ∃ i c, (parameter id v).run a = .ok (i, { a with parameters := a.parameters ++ [(id, c)] }) ∧
      .ofPacked c = v := by
  obtain ⟨c, hc⟩ : ∃ c, v.packed? = some c := ⟨_, if_pos h⟩
  refine ⟨.ofNat a.parameters.length, c, ?_, Value.ofPacked_of_packed? hc⟩
  rw [parameter, hc]
  rfl

theorem run_gotoWith (mode : GotoMode) (t : UInt32) (condition : Option Operand) (a : Assembly) :
    (gotoWith mode t condition).run a =
      .ok (⟨a.offset + 1⟩,
        { a.emit (Assembly.gotoOpcode mode condition ::
            (bytesOfWord t ++ (condition.map (bytesOfWord ·.data)).getD [])) with
          branches := a.branches ++ [a.offset + 1] }) := by
  let opened := a.emit [Assembly.gotoOpcode mode condition]
  have place : opened.offset = a.offset + 1 := by simp [opened, Assembly.offset, Assembly.emit]
  cases condition with
  | none =>
    show Except.ok (Label.mk opened.offset, Assembly.mk a.locals a.parameters
      (opened.emit (bytesOfWord t)).code (a.branches ++ [opened.offset])) = _
    rw [place, Assembly.emit_emit]
    rfl
  | some o =>
    show Except.ok (Label.mk opened.offset, Assembly.mk a.locals a.parameters
      ((opened.emit (bytesOfWord t)).emit (bytesOfWord o.data)).code
      (a.branches ++ [opened.offset])) = _
    rw [place, Assembly.emit_emit, Assembly.emit_emit]
    rfl

theorem run_gotoWhen (condition : Option (Bool × Operand)) (a : Assembly) :
    (gotoWhen condition).run a =
      .ok (⟨a.offset + 1⟩, a.add (.gotoWhen 0 condition)) := by
  obtain _ | ⟨_ | _, o⟩ := condition <;> rw [Assembly.add_of_target rfl]
  · exact run_gotoWith .always 0 none a
  · exact run_gotoWith .ifFalse 0 (some o) a
  · exact run_gotoWith .ifTrue 0 (some o) a

theorem run_gotoBack (offset : Nat) (a : Assembly) :
    (gotoBack offset).run a = .ok ((), a.add (.goto (.ofNat offset))) := by
  rw [Assembly.add_of_target rfl, gotoBack, StateT.run_bind, run_gotoWith]
  rfl

end Assembler

/-! ## The code of a growing program -/

namespace Directive

variable {t t' : Directive → UInt32} {d e : Directive}

/-- The directive that says where a goto leads. -/
def aim? : Directive → Option Directive
  | goto label _ => some (bind label)
  | gotoBack name => some (mark name)
  | _ => none

theorem instruction_congr (h : ∀ e, d.aim? = some e → t e = t' e) :
    d.instruction t = d.instruction t' := by
  cases d with
  | goto l c => rw [instruction, instruction, h _ rfl]
  | gotoBack m => rw [instruction, instruction, h _ rfl]
  | parameter | sentence | mark | bind => rfl

/-- No goto leads to a directive that emits something. -/
theorem aim?_ne {i : Instruction} (h : d.instruction t = some i) (e : Directive) :
    e.aim? ≠ some d := by
  cases d with
  | sentence | goto | gotoBack => cases e <;> nofun
  | parameter | mark | bind => cases h

theorem size_eq (t : Directive → UInt32) (d : Directive) :
    d.size = ((d.instruction t).map Instruction.size).getD 0 := by
  cases d with
  | goto l c => cases c <;> rfl
  | parameter | sentence | mark | gotoBack | bind => rfl

end Directive

namespace Program

variable {p q : Program} {d e : Directive}

/-- The target that is written for a directive: none as long as the directive has not come. -/
def draftTarget (p : Program) (d : Directive) : UInt32 :=
  if d ∈ p then .ofNat (p.offsetOf d) else 0

/-- The instructions in the code, with the targets written so far. -/
def draft (p : Program) : List Instruction := p.filterMap (Directive.instruction p.draftTarget)

theorem length_encodeAll (t : Directive → UInt32) (p : Program) :
    (Instruction.encodeAll (p.filterMap (Directive.instruction t))).length = p.size := by
  rw [Instruction.length_encodeAll]
  exact extent_filterMap (Directive.size_eq t) p

theorem draftTarget_append (h : e ≠ d) : draftTarget (p ++ [d]) e = p.draftTarget e := by
  unfold draftTarget
  by_cases mem : e ∈ p
  · rw [if_pos mem, if_pos (List.mem_append_left _ mem), offsetOf_append mem]
  · rw [if_neg mem, if_neg (by simp [mem, h])]

theorem draftTarget_of_mem (h : d ∈ p) : p.draftTarget d = .ofNat (p.offsetOf d) := if_pos h

theorem draftTarget_self (h : d ∉ p) : draftTarget (p ++ [d]) d = .ofNat p.size := by
  rw [draftTarget_of_mem (by simp), offsetOf_append_cons h]

/-- Where no goto leads to the new directive, the code only grows. -/
theorem draft_append (h : ∀ e ∈ p, e.aim? ≠ some d) :
    draft (p ++ [d]) = p.draft ++ (d.instruction p.draftTarget).toList := by
  have self : d.aim? ≠ some d := by cases d <;> nofun
  have same : ∀ e ∈ p ++ [d],
      e.instruction (draftTarget (p ++ [d])) = e.instruction p.draftTarget := by
    intro e mem
    refine Directive.instruction_congr fun f aim => draftTarget_append ?_
    rintro rfl
    rcases List.mem_append.1 mem with mem | mem
    · exact h e mem aim
    · exact self (List.mem_singleton.1 mem ▸ aim)
  rw [draft, List.filterMap_congr same, List.filterMap_append]
  cases h : d.instruction p.draftTarget <;> simp [draft, h]

/-- Binding a label writes the target of its goto, and nothing else changes. -/
theorem draft_bind (orderly : p.Orderly) {l : Nat} {c : Option (Bool × Operand)}
    (mem : .goto l c ∈ p) (fresh : .bind l ∉ p) :
    ∃ before after, p.draft = before ++ .gotoWhen 0 c :: after ∧
      (Instruction.encodeAll before).length = p.offsetOf (.goto l c) ∧
      draft (p ++ [.bind l]) = before ++ .gotoWhen (.ofNat p.size) c :: after := by
  obtain ⟨xs, ys, rfl, first⟩ := List.eq_append_cons_of_mem mem
  have once := orderly.labels_nodup
  rw [labels, List.filterMap_append, List.filterMap_cons_some (f := Directive.label?) rfl,
    List.nodup_middle, List.nodup_cons, List.mem_append, not_or] at once
  -- No other goto leads to this label, so the others keep the targets that they have.
  have others : ∀ zs : Program, l ∉ zs.labels → ∀ e ∈ zs,
      e.instruction (draftTarget (xs ++ .goto l c :: ys ++ [.bind l])) =
        e.instruction (draftTarget (xs ++ .goto l c :: ys)) := by
    intro zs absent e he
    refine Directive.instruction_congr fun f aim => draftTarget_append ?_
    rintro rfl
    cases e with
    | goto m c' =>
      cases aim
      exact absent (mem_labels.2 ⟨_, he⟩)
    | parameter | sentence | mark | gotoBack | bind => cases aim
  refine ⟨xs.filterMap (Directive.instruction (draftTarget (xs ++ .goto l c :: ys))),
    ys.filterMap (Directive.instruction (draftTarget (xs ++ .goto l c :: ys))), ?_, ?_, ?_⟩
  · have unbound : draftTarget (xs ++ .goto l c :: ys) (.bind l) = 0 := if_neg fresh
    rw [draft, List.filterMap_append, List.filterMap_cons_some (f := Directive.instruction _) rfl,
      unbound]
  · rw [length_encodeAll, offsetOf_append_cons first]
  · rw [draft, List.filterMap_append, List.filterMap_append,
      List.filterMap_cons_some (f := Directive.instruction _) rfl,
      List.filterMap_congr (others xs once.1.1), List.filterMap_congr (others ys once.1.2),
      draftTarget_self fresh]
    exact List.append_nil _

end Program

/-! ## Running a program -/

/-- The names stand for what the program gave them to. -/
structure Names.Stand (s : Names) (p : Program) : Prop where
  labels : ∀ l c, .goto l c ∈ p → s.labels l = some ⟨p.offsetOf (.goto l c) + 1⟩
  marks : ∀ m, .mark m ∈ p → s.marks m = some (p.offsetOf (.mark m))

namespace Names.Stand

variable {s : Names} {p : Program}

theorem labels_append (h : s.Stand p) {l : Nat} {c : Option (Bool × Operand)}
    (mem : .goto l c ∈ p) (q : Program) :
    s.labels l = some ⟨Program.offsetOf (p ++ q) (.goto l c) + 1⟩ := by
  rw [Program.offsetOf_append mem, h.labels l c mem]

theorem marks_append (h : s.Stand p) {m : Nat} (mem : .mark m ∈ p) (q : Program) :
    s.marks m = some (Program.offsetOf (p ++ q) (.mark m)) := by
  rw [Program.offsetOf_append mem, h.marks m mem]

/-- A directive that gives no name. -/
theorem append (h : s.Stand p) {d : Directive} (noLabel : ∀ l c, .goto l c ≠ d)
    (noMark : ∀ m, .mark m ≠ d) : s.Stand (p ++ [d]) where
  labels l c mem := h.labels_append (by simpa [noLabel] using mem) _
  marks m mem := h.marks_append (by simpa [noMark] using mem) _

theorem goto (h : s.Stand p) {l : Nat} (fresh : l ∉ p.labels) (c : Option (Bool × Operand)) :
    (s.withLabel l ⟨p.size + 1⟩).Stand (p ++ [.goto l c]) where
  labels l' c' mem := by
    by_cases same : l' = l
    · subst same
      have new : ∀ c, .goto l' c ∉ p := fun c mem => fresh (Program.mem_labels.2 ⟨c, mem⟩)
      obtain rfl : c' = c := by simpa [new] using mem
      rw [labels_withLabel, if_pos rfl, Program.offsetOf_append_cons (new c')]
    · rw [labels_withLabel, if_neg same]
      exact h.labels_append (by simpa [same] using mem) _
  marks m mem := h.marks_append (by simpa using mem) _

theorem mark (h : s.Stand p) {m : Nat} (fresh : .mark m ∉ p) :
    (s.withMark m p.size).Stand (p ++ [.mark m]) where
  labels l c mem := h.labels_append (by simpa using mem) _
  marks m' mem := by
    by_cases same : m' = m
    · subst same
      rw [marks_withMark, if_pos rfl, Program.offsetOf_append_cons fresh]
    · rw [marks_withMark, if_neg same]
      exact h.marks_append (by simpa [same] using mem) _

end Names.Stand

namespace Program

/-- What the assembler has come to when it was told a program. -/
structure Written (p : Program) (locals : UInt8) (s : Names) (a : Assembly) : Prop where
  locals : a.locals = locals
  declared : a.declared = p.parameters
  holds : a.Holds p.draft
  names : s.Stand p

namespace Written

variable {p : Program} {locals : UInt8} {s s' : Names} {a : Assembly} {d : Directive}

theorem offset (h : p.Written locals s a) : a.offset = p.size := by
  rw [h.holds.offset, draft, length_encodeAll]

theorem nil (locals : UInt8) : Written [] locals {} { locals } where
  locals := rfl
  declared := rfl
  holds := ⟨rfl, rfl⟩
  names := ⟨by simp, by simp⟩

/-- A directive that emits an instruction, and declares nothing. -/
theorem add (h : p.Written locals s a) {i : Instruction}
    (emits : d.instruction p.draftTarget = some i) (plain : d.parameter? = none)
    (names : s'.Stand (p ++ [d])) :
    Written (p ++ [d]) locals s' (a.add i) where
  locals := h.locals
  declared := by
    rw [parameters, List.filterMap_append, List.filterMap_cons_none plain]
    exact h.declared.trans (List.append_nil _).symm
  holds := by
    rw [draft_append fun e _ => Directive.aim?_ne emits e, emits]
    exact h.holds.add i
  names := names

theorem parameter (h : p.Written locals s a) {v : Value} {c : UInt32} (value : .ofPacked c = v)
    (id : ParameterId) :
    Written (p ++ [.parameter id v]) locals s
      { a with parameters := a.parameters ++ [(id, c)] } where
  locals := h.locals
  declared := by
    rw [parameters, List.filterMap_append, ← parameters, ← h.declared, ← value]
    exact List.map_append
  holds := by
    rw [draft_append fun e _ => by cases e <;> nofun]
    exact (List.append_nil p.draft).symm ▸ ⟨h.holds.code, h.holds.branches⟩
  names := h.names.append (by simp) (by simp)

theorem mark (h : p.Written locals s a) (orderly : p.Orderly) {m : Nat} (fresh : .mark m ∉ p) :
    Written (p ++ [.mark m]) locals (s.withMark m p.size) a where
  locals := h.locals
  declared := by
    rw [h.declared, parameters, parameters, List.filterMap_append]
    exact (List.append_nil _).symm
  holds := by
    have aimless : ∀ e ∈ p, e.aim? ≠ some (.mark m) := by
      intro e mem aim
      cases e with
      | gotoBack m' =>
        cases aim
        exact fresh (orderly.marked mem)
      | parameter | sentence | goto | mark | bind => cases aim
    rw [draft_append aimless]
    exact (List.append_nil p.draft).symm ▸ h.holds
  names := h.names.mark fresh

theorem bind (h : p.Written locals s a) (orderly : p.Orderly) {l : Nat}
    {c : Option (Bool × Operand)} (given : .goto l c ∈ p) (fresh : .bind l ∉ p) :
    Written (p ++ [.bind l]) locals s
      { a with code := Assembly.putWord a.code (p.offsetOf (.goto l c) + 1) (.ofNat p.size) } where
  locals := h.locals
  declared := by
    rw [parameters, List.filterMap_append, Assembly.declared]
    exact h.declared.trans (List.append_nil _).symm
  holds := by
    obtain ⟨before, after, draft, place, bound⟩ := draft_bind orderly given fresh
    have goto : (Instruction.gotoWhen 0 c).target? = some 0 := by cases c <;> rfl
    have aimed : (Instruction.gotoWhen 0 c).withTarget (.ofNat p.size) =
        .gotoWhen (.ofNat p.size) c := by cases c <;> rfl
    have holds := h.holds
    rw [draft] at holds
    rw [bound, ← place, ← aimed]
    exact holds.withTarget goto _
  names := h.names.append (by simp) (by simp)

/-- One more directive, told to the assembler after the others. -/
theorem write (h : p.Written locals s a) (orderly : p.Orderly) (allowed : d.Allowed p) :
    ∃ s' a', (d.write s).run a = .ok (s', a') ∧ Written (p ++ [d]) locals s' a' := by
  cases d with
  | parameter id default =>
    obtain ⟨i, c, run, value⟩ := Assembler.run_parameter allowed id a
    refine ⟨_, _, ?_, h.parameter value id⟩
    rw [Directive.write, StateT.run_bind, run]
    rfl
  | sentence said =>
    obtain ⟨i, emits, -⟩ := Sentence.Writable.emits allowed
    refine ⟨s, a.add i, ?_, h.add (by rw [Directive.instruction, emits]; rfl) rfl
      (h.names.append (by simp) (by simp))⟩
    rw [Directive.write, StateT.run_bind, said.run_write, emits]
    rfl
  | goto l c =>
    have unbound : p.draftTarget (.bind l) = 0 := if_neg fun bound => allowed (orderly.given bound)
    refine ⟨_, a.add (.gotoWhen 0 c), ?_, h.add (by rw [Directive.instruction, unbound]) rfl
      (h.names.goto allowed c)⟩
    rw [Directive.write, StateT.run_bind, Assembler.run_gotoWhen, h.offset]
    rfl
  | mark m =>
    refine ⟨_, a, ?_, h.mark orderly allowed⟩
    rw [← h.offset]
    rfl
  | gotoBack m =>
    refine ⟨s, a.add (.goto (.ofNat (p.offsetOf (.mark m)))), ?_,
      h.add (by rw [Directive.instruction, draftTarget_of_mem allowed]) rfl
      (h.names.append (by simp) (by simp))⟩
    rw [Directive.write, h.names.marks m allowed]
    show (do Assembler.gotoBack (p.offsetOf (.mark m)); return s : Assembler Names).run a = _
    rw [StateT.run_bind, Assembler.run_gotoBack]
    rfl
  | bind l =>
    obtain ⟨c, given⟩ := mem_labels.1 allowed.1
    refine ⟨s, _, ?_, h.bind orderly given allowed.2⟩
    rw [Directive.write, h.names.labels l c given, ← h.offset]
    rfl

end Written

theorem run_append (p q : Program) :
    run (p ++ q) = p.run >>= fun s => q.foldlM Directive.write s :=
  List.foldlM_append

/-- A program that is orderly is written to its end. -/
theorem written {p : Program} (orderly : p.Orderly) (locals : UInt8) :
    ∃ s a, p.run.run { locals } = .ok (s, a) ∧ p.Written locals s a := by
  induction p using List.reverseRecOn with
  | nil => exact ⟨_, _, rfl, .nil locals⟩
  | append_singleton p d ih =>
    obtain ⟨s, a, run, before⟩ := ih orderly.left
    obtain ⟨s', a', write, after⟩ := before.write orderly.left orderly.last
    refine ⟨s', a', ?_, after⟩
    rw [run_append, StateT.run_bind, run]
    show (d.write s >>= pure).run a = _
    rw [bind_pure, write]

theorem target_eq (p : Program) (d : Directive) :
    p.target d = .ofNat (p.offsetOf d) + .ofNat p.headerLength := by
  rw [target, Nat.add_comm, UInt32.ofNat_add]

/-- Once every label is bound, moving the targets on by the length of the header gives the
instructions of the finished body. -/
theorem draft_moved {p : Program} (orderly : p.Orderly) (bound : ∀ l ∈ p.labels, .bind l ∈ p) :
    p.draft.map (·.moved (.ofNat p.headerLength)) =
      p.filterMap (Directive.instruction p.target) := by
  rw [draft, List.map_filterMap]
  refine List.filterMap_congr fun d mem => ?_
  cases d with
  | sentence s =>
    rw [Directive.instruction, Directive.instruction]
    cases emits : s.instruction with
    | error u => rfl
    | ok i => exact congrArg some (Instruction.moved_of_none (s.target?_instruction emits) _)
  | goto l c =>
    have aim := draftTarget_of_mem (bound l (mem_labels.2 ⟨c, mem⟩))
    rw [Directive.instruction, Directive.instruction, aim, target_eq]
    cases c <;> rfl
  | gotoBack m =>
    have aim := draftTarget_of_mem (orderly.marked mem)
    rw [Directive.instruction, Directive.instruction, aim, target_eq]
    rfl
  | parameter | mark | bind => rfl

theorem instructions_eq (p : Program) :
    p.instructions =
      layout Instruction.size p.headerLength (p.filterMap (Directive.instruction p.target)) :=
  (layout_filterMap (Directive.size_eq p.target) _ p).symm

theorem encodable_draft {p : Program} (orderly : p.Orderly) : ∀ i ∈ p.draft, i.Encodable := by
  intro i mem
  obtain ⟨d, mem, emits⟩ := List.mem_filterMap.1 mem
  cases d with
  | sentence s =>
    obtain ⟨before, -, writable⟩ := orderly.allowed mem
    obtain ⟨j, said, encodable⟩ := Sentence.Writable.emits writable
    rw [Directive.instruction, said] at emits
    cases emits
    exact encodable
  | goto l c =>
    cases emits
    cases c <;> trivial
  | gotoBack m =>
    cases emits
    trivial
  | parameter | mark | bind => cases emits

/-- A sound program is accepted, and the handler has the locals and the parameters that were asked
for.  Its disassembly is the instructions of the program: each at the place that the offset reached
before it gives, each goto leading to where its label was bound or its mark was set.  Offsets are
those that the assembler reaches after any part of the program. -/
theorem toHandler_disassembly {p : Program} {locals : UInt8} (h : p.Sound locals) (id : MessageId)
    (name : String) :
    ∃ handler, p.write.toHandler locals id name = .ok handler ∧
      handler.id = id ∧ handler.name = name ∧ handler.locals = locals.toNat ∧
      handler.parameters = p.parameters ∧ handler.body.size = p.headerLength + p.size ∧
      handler.disassembly = ⟨p.instructions, handler.body.size, none⟩ ∧
      (∀ d, (p.target d).toNat = p.headerLength + p.offsetOf d) ∧
      ∀ q r, p = q ++ r → ∃ s a, (run q).run { locals } = .ok (s, a) ∧ a.offset = size q := by
  obtain ⟨s, a, run, state⟩ := written h.orderly locals
  have count : a.parameters.length = p.parameters.length := by
    rw [← a.length_declared, state.declared]
  have header : a.headerLength = p.headerLength := by
    rw [Assembly.headerLength, count, headerLength]
  have length : (Instruction.encodeAll p.draft).length = p.size := length_encodeAll _ p
  obtain ⟨handler, accepted, sameId, sameName, sameLocals, sameParameters, size, disassembly⟩ :=
    state.holds.toHandler (encodable_draft h.orderly)
      (by rw [state.locals, count]; exact h.locals_le) id name
  rw [header, length] at size
  rw [header, length, draft_moved h.orderly h.bound, ← instructions_eq, ← size] at disassembly
  refine ⟨handler, ?_, sameId, sameName, state.locals ▸ sameLocals,
    state.declared ▸ sameParameters, size, disassembly, ?_, ?_⟩
  · have done : p.write.run { locals } = .ok ((), a) := by
      rw [write, StateT.run_bind, run]
      rfl
    rw [Assembler.toHandler, done]
    simp only [accepted]
    rfl
  · intro d
    have := p.offsetOf_le d
    rw [target, UInt32.toNat_ofNat_of_lt' (Nat.lt_of_le_of_lt (by omega) h.length_lt)]
  · rintro q r rfl
    obtain ⟨s, a, run, state⟩ := written h.orderly.left locals
    exact ⟨s, a, run, state.offset⟩

/-- A loop that counts a local down by its parameter, which is declared last. -/
def countingDown : Program :=
  [.mark 0, .goto 0 (some (false, .ofLocal 1)),
    .sentence (.binary .subtract (.ofLocal 1) (.ofLocal 1) (.ofLocal 0)), .gotoBack 0,
    .bind 0, .sentence .handOver, .parameter ⟨5⟩ (.int (-1))]

theorem toHandler_disassembly_countingDown :
    countingDown.Sound 1 ∧
      ∃ handler, countingDown.write.toHandler 1 ⟨7⟩ "countDown" = .ok handler ∧
        handler.parameters = [⟨⟨5⟩, .int (-1)⟩] ∧
        handler.disassembly =
          ⟨[(10, .gotoIf false 38 (.ofLocal 1)),
            (19, .binary .subtract (.ofLocal 1) (.ofLocal 1) (.ofLocal 0)),
            (33, .goto 10), (38, .handOver)], 39, none⟩ := by
  have sound : countingDown.Sound 1 := ⟨by decide, by decide, by decide, by decide⟩
  obtain ⟨handler, accepted, -, -, -, parameters, size, disassembly, -, -⟩ :=
    toHandler_disassembly sound ⟨7⟩ "countDown"
  refine ⟨sound, handler, accepted, parameters, ?_⟩
  rw [disassembly, size]
  rfl

end Program

end MessageMachine
