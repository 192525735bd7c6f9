import MessageMachine.Direct
import MessageMachine.Proofs.Machine.Returning
import MessageMachine.Proofs.Statement.Soundness

/-!
# Clean code does not trap

What can be seen in a disassembly is true of every run.  A handler whose body is clean never
fails as one whose code is malformed, on whatever receiver, in whatever frame of its size, and
whatever the handlers that it sends to do; and if its body is closed, it does not run off its
end either (`Handler.IsClean.never_malformed`).

The invariant ties the machine to the disassembly: while the handler is at work, its cursor stands
where the rest of the body can be read, and so it does while the handler waits for an answer
(`Handler.conduct`).  A statement keeps this, since it leaves the cursor behind an instruction or at
the target of one.  Nested sends cannot break it: a handler is only ever given an answer, and where
the answer goes has been checked with the rest of the call.
-/

namespace MessageMachine

/-- A fault that comes from reading code, from a branch, or from a local that the frame does not
have: the code is to blame. -/
def Fault.isMalformed : Fault → Bool
  | overrun .. | unknownCommand .. | unknownUnary _ | unknownBinary _ | invalidOperandKind _
  | invalidAssignMode _ | invalidGotoMode _ | branchOutOfRange .. | localOutOfRange ..
  | tooManyPositional _ | tooManyNamed _ | tooManyLocals _ | constantNotStorable => true
  | _ => false

namespace Handler

variable {h : Handler}

/-- What the handler may still fail with: nothing that its code is to blame for.  It may run off the
end of its body, but not if this is closed. -/
structure Permits (h : Handler) (f : Fault) : Prop where
  formed : f.isMalformed = false
  returns : h.isClosed = true → f ≠ .missingReturn

theorem permits_of_isData {f : Fault} (data : f.isData = true) : h.Permits f := by
  cases f with
  | propertyOutOfRange | classVarOutOfRange | unknownObject | unknownClass | unknownNative
  | tagMismatch | divisionByZero | native => exact ⟨rfl, fun _ e => by cases e⟩
  | _ => cases data

theorem permits_of_aborts {f : Fault} (aborts : f.aborts = true) : h.Permits f := by
  cases f with
  | statementBudget => exact ⟨rfl, fun _ e => by cases e⟩
  | _ => cases aborts

/-- The execution runs the handler's body in a frame of its size, and stands where the rest of the
body can be read. -/
structure Guides (h : Handler) (e : Execution) : Prop where
  codeStart : e.codeStart = h.codeStart
  frame : e.frame.size = h.frameSize
  place : h.Reaches e.cursor

/-- An execution is guided on when its cursor stands at such a place again. -/
theorem Guides.continues {e e' : Execution} (guides : h.Guides e) (continues : e.Continues e')
    (place : h.Reaches e'.cursor) : h.Guides e' :=
  ⟨continues.codeStart.trans guides.codeStart, continues.size.trans guides.frame, place⟩

/-- The conduct of clean code. -/
def conduct (h : Handler) : Conduct where
  works := h.Guides
  fails _ f := h.Permits f
  waits c := h.Guides c.execution ∧ ∀ d, c.destination = some d → d.operand.Fits h.frameSize

namespace IsClean

variable {env : Environment} (clean : h.IsClean) (hn : env.natives.IsStandard)
include clean hn

/-- A statement of clean code. -/
theorem after_statement {scope : Scope} {m m' : Moment} {x : Except Fault Next}
    (environment : scope.environment = env) (guides : h.Guides m.execution)
    (code : m.execution.cursor.atEnd = false) (run : Action.statement scope m = (x, m')) :
    h.conduct.After m'.execution x := by
  obtain ⟨i, next, decoded, mem, body, onwards⟩ := guides.place.exists_decode code
  have continues := Action.continues_statement run
  have inside (t : UInt32) (target : i.target? = some t) :
      h.codeStart ≤ t.toNat ∧ t.toNat < h.body.size ∧ h.Reaches ⟨h.body, t.toNat⟩ :=
    reaches_of_mem clean.readable (clean.targets _ mem t target)
  have outcome := Action.outcome_statement (by rw [environment]; exact hn) decoded
    (by rw [guides.frame]; exact clean.locals _ mem)
    (fun t target => by
      rw [guides.codeStart, body]
      exact ⟨(inside t target).1, (inside t target).2.1⟩) run
  generalize stands : m'.execution.cursor = place at outcome
  cases outcome with
  | fail data => exact permits_of_isData data
  | pass goesOn => exact guides.continues continues (stands ▸ onwards goesOn)
  | jump target =>
    refine guides.continues continues ?_
    rw [stands, body]
    exact (inside _ target).2.2
  | await goesOn fits =>
    exact ⟨guides.continues continues (stands ▸ onwards goesOn), guides.frame ▸ fits⟩
  | leave => trivial

omit clean hn in
/-- The answer that clean code has been waiting for. -/
theorem after_answer {c : Caller} {value : Value} {m m' : Moment} {x : Except Fault Unit}
    (waits : h.conduct.waits c) (execution : m.execution = c.execution)
    (run : Action.assignIf c.destination value m = (x, m')) :
    h.conduct.After m'.execution (x.map fun _ => .proceed) := by
  obtain ⟨guides, fits⟩ := waits
  rw [← execution] at guides
  have continues := ((Action.Tame.assignIf _ _).of_run run).1.execution
  obtain ⟨-, cursor, faults⟩ := Action.Safe.assignIf fits value m guides.frame
  rw [run] at cursor faults
  match x with
  | .ok () => exact guides.continues continues (cursor ▸ guides.place)
  | .error f => exact permits_of_isData (faults f rfl)

/-- **Clean code keeps its conduct.** -/
theorem kept : h.conduct.Kept env where
  runOff guides code :=
    ⟨rfl, fun closed => by rw [guides.place.ending code] at closed; cases closed⟩
  overrun _ := permits_of_aborts rfl
  statement := clean.after_statement hn
  resume := after_answer
  abort _ aborts := permits_of_aborts aborts

end IsClean

/-- The execution is about to run the handler's body from the start, in a frame of its size. -/
structure Begins (h : Handler) (e : Execution) : Prop where
  codeStart : e.codeStart = h.codeStart
  cursor : e.cursor = ⟨h.body, h.codeStart⟩
  frame : e.frame.size = h.frameSize

/-- Clean code ends, and fails with permitted faults only. -/
theorem IsClean.returns (clean : h.IsClean) {env : Environment} (hn : env.natives.IsStandard)
    {m : Machine} {x : Execution} (control : m.control = .execute x) (begins : h.Begins x) :
    (∃ r, m.Returns env r) ∧ ∀ f, m.Returns env (.error f) → h.Permits f := by
  have guides : h.Guides x :=
    ⟨begins.codeStart, begins.frame, begins.cursor ▸ reaches_start clean.readable⟩
  have holds : h.conduct.Holds m.callers m := .works control rfl guides
  have kept := clean.kept hn
  constructor
  · obtain ⟨ended, r, completes, -⟩ := holds.exists_completes kept
    exact ⟨r, ended, completes⟩
  · rintro f ⟨ended, completes⟩
    have last := holds.of_completes kept completes
    rcases last.of_ends completes.callers completes.ends with
      ⟨e, control', -⟩ | ⟨e, g, -, same, permits⟩
    · cases completes.ends with
      | fail control'' =>
        rw [control'] at control''
        cases control''
    · cases same
      exact permits

/-- **Clean code does not trap.**  Let the body of a handler read to its end, let its gotos lead to
instructions and let it name locals of its frame only.  It runs for any receiver, in any frame of
its size, with standard natives.

Wherever the machine begins to run it, in whatever state, it comes to an end; and it never fails
with a fault that its code is to blame for, nor for lack of a return if it is closed.  The same
holds when it is run on its own. -/
theorem IsClean.never_malformed (clean : h.IsClean) :
    (∀ (env : Environment) (m : Machine) (x : Execution), env.natives.IsStandard →
      m.control = .execute x → h.Begins x →
        (∃ r, m.Returns env r) ∧ ∀ f, m.Returns env (.error f) → h.Permits f) ∧
    ∀ (e : Engine) (receiver : ObjectId) (frame : Frame), e.natives.IsStandard →
      frame.size = h.frameSize →
        ∀ f, (e.runBody receiver h frame).1.result = .error f → h.Permits f := by
  refine ⟨fun env m x hn control begins => clean.returns hn control begins, ?_⟩
  intro e receiver frame hn size f failed
  let start : Execution :=
    { receiver
      codeStart := h.codeStart
      cursor := ⟨h.body, h.codeStart⟩
      frame
      role := none }
  let m := Machine.ofExecution e.directSession start
  have standard : e.environment.natives.IsStandard := hn
  obtain ⟨⟨r, ended, completes⟩, permits⟩ :=
    clean.returns standard (m := m) (x := start) rfl ⟨rfl, rfl, size⟩
  obtain ⟨x, halts⟩ := completes.halts (x := start) rfl rfl
  have result : (e.runBody receiver h frame).1.result = r := by
    rw [Engine.runBody]
    dsimp only
    rw [halts]
  rw [result] at failed
  exact permits f ⟨ended, failed ▸ completes⟩

/-- A handler with one local that sets it to 3 and goes back to do so again as long as it
is not zero. -/
def spinning : Handler where
  locals := 1
  parameters := []
  frameSize_le := by decide
  id := ⟨1⟩
  name := "Spin"
  body := #[1, 0, 8, 2, 0, 0, 0, 0, 3, 0, 0, 0, 68, 2, 0, 0, 0, 0, 0, 0, 0, 144, 0, 0, 0, 0]

theorem IsClean.never_malformed_spinning :
    let frame : Frame := ⟨#[⟨.nil, true⟩], by decide⟩
    let e := Engine.ofSettings {}
    let x : Execution := ⟨⟨0⟩, 2, ⟨spinning.body, 2⟩, frame, none⟩
    let m := Machine.ofExecution e.directSession x
    spinning.IsClean ∧ spinning.isClosed = true ∧ e.natives.IsStandard ∧ spinning.Begins x ∧
      ((∃ r, m.Returns e.environment r) ∧
        ∀ f, m.Returns e.environment (.error f) → spinning.Permits f) ∧
      ∀ f, (e.runBody ⟨0⟩ spinning frame).1.result = .error f → spinning.Permits f := by
  intro frame e x m
  have clean : spinning.IsClean := by decide +kernel
  obtain ⟨returns, alone⟩ := IsClean.never_malformed clean
  exact ⟨clean, by decide +kernel, NativeTable.isStandard_standard, ⟨rfl, rfl, rfl⟩,
    returns e.environment m x NativeTable.isStandard_standard rfl ⟨rfl, rfl, rfl⟩,
    alone e ⟨0⟩ frame NativeTable.isStandard_standard rfl⟩

end Handler

end MessageMachine
