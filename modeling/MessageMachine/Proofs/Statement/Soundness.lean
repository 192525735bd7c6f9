import MessageMachine.Proofs.Code.Clean
import MessageMachine.Proofs.Statement.Sending

/-!
# Statements in clean code

What can go wrong with a statement when its code is in order?  The code is in order when it can be
decoded to an instruction, the frame has all locals that this instruction names, and its target, if
it has one, lies among the instructions.  Then a fault of the statement lies in the data, and the
statement leaves its execution behind the instruction or at the target (`Action.outcome_statement`).

The parts of an instruction that do not branch are *safe*: they do not move the execution, keep the
size of its frame, and fail with faults of the data only.
-/

namespace MessageMachine

/-! ## Safe actions -/

namespace Action

variable {α β : Type} {size : Nat}

/-- In a frame of `size` locals the action leaves the execution in its place, keeps the size of the
frame, and fails with faults of the data only. -/
def Safe (size : Nat) (a : Action α) : Prop :=
  ∀ m, m.execution.frame.size = size →
    (a m).2.execution.frame.size = size ∧
      (a m).2.execution.cursor = m.execution.cursor ∧ DataFaults (a m).1

namespace Safe

theorem pure (a : α) : Safe size (Pure.pure a : Action α) := fun _ hm => ⟨hm, rfl, .ok a⟩

theorem throw {f : Fault} (h : f.isData = true) : Safe size (MonadExcept.throw f : Action α) :=
  fun _ hm => ⟨hm, rfl, .error h⟩

theorem lift {x : Except Fault α} (h : DataFaults x) : Safe size (liftM x : Action α) := by
  intro m hm
  rw [liftM_run]
  exact ⟨hm, rfl, h⟩

theorem bind {a : Action α} {k : α → Action β} (ha : Safe size a) (hk : ∀ x, Safe size (k x)) :
    Safe size (a >>= k) := by
  intro m hm
  have h := ha m hm
  generalize run : a m = outcome at h
  match outcome with
  | (.ok x, m') =>
    rw [bind_of_ok run]
    obtain ⟨kept, cursor, faults⟩ := hk x m' h.1
    exact ⟨kept, cursor.trans h.2.1, faults⟩
  | (.error f, m') =>
    rw [bind_of_error run]
    exact ⟨h.1, h.2.1, .error (h.2.2 f rfl)⟩

theorem mapM {g : α → Action β} {as : List α} (hg : ∀ a ∈ as, Safe size (g a)) :
    Safe size (as.mapM g) := by
  induction as with
  | nil =>
    rw [List.mapM_nil]
    exact pure _
  | cons a as ih =>
    obtain ⟨first, others⟩ := List.forall_mem_cons.mp hg
    rw [List.mapM_cons]
    exact first.bind fun _ => (ih others).bind fun _ => pure _

theorem fetchOperand {o : Operand} (fits : o.Fits size) : Safe size (Action.fetchOperand o) := by
  intro m hm
  have same := (Moment.Looked.fetchOperand o m).execution
  refine ⟨by rw [same, hm], by rw [same], fun f hf => ?_⟩
  rw [Action.fetchOperand, fetch_run] at hf
  rcases World.error_of_read _ _ _ _ _ hf with data | ⟨isLocal, missing⟩
  · exact data
  · obtain ⟨v, found⟩ := Frame.get_of_lt (f := m.execution.frame) (by rw [hm]; exact fits isLocal)
    rw [found] at missing
    cases missing

theorem fetchNamed {n : NamedOperand} (fits : n.operand.Fits size) :
    Safe size (Action.fetchNamed n) :=
  (fetchOperand fits).bind fun _ => pure _

theorem assign {d : Destination} (fits : d.operand.Fits size) (value : Value) :
    Safe size (Action.assign d value) := by
  intro m hm
  have kept := World.size_of_write m.world m.execution.receiver m.execution.frame d.place d.index
    value
  have fails (f : Fault) := World.error_of_write m.world m.execution.receiver m.execution.frame
    d.place d.index value (f := f)
  rw [assign_run]
  generalize m.world.write m.execution.receiver m.execution.frame d.place.kind d.index value =
    outcome at kept fails
  match outcome with
  | (.ok frame, w) => exact ⟨(kept frame rfl).trans hm, rfl, .ok _⟩
  | (.error f, w) =>
    refine ⟨hm, rfl, .error ?_⟩
    rcases fails f rfl with data | ⟨isLocal, missing⟩
    · exact data
    · have lt : d.index.toNat < m.execution.frame.size := by
        rw [hm]
        exact fits (congrArg Place.kind isLocal)
      obtain ⟨frame, written, -⟩ := (m.execution.frame.set_spec d.index value).1 lt
      rw [written] at missing
      cases missing

theorem assignIf {destination : Option Destination}
    (fits : ∀ d, destination = some d → d.operand.Fits size) (value : Value) :
    Safe size (Action.assignIf destination value) := by
  cases destination with
  | none => exact pure _
  | some d => exact assign (fits d rfl) value

theorem setLine (line : UInt32) : Safe size (Action.setLine line) := fun _ hm => ⟨hm, rfl, .ok _⟩

/-- Running a standard native function, and going on with its reply. -/
theorem invoke (scope : Scope) (index : UInt8) {native : Native} (h : native.IsStandard)
    (positional : List Value) (named : List Argument) {k : Reply → Action α}
    (hk : ∀ reply, (∀ f, reply = .fault f → f.isData = true) → Safe size (k reply)) :
    Safe size (Action.invoke scope index native positional named >>= k) := by
  intro m hm
  obtain ⟨c, m₁, rfl, run⟩ := invoke_run scope index native positional named m
  obtain ⟨-, -, -, faults⟩ := h.run_spec c (m.world.log (.nativeCall native.name index))
    fun _ => True
  rw [bind_of_ok run]
  exact hk _ faults _ hm

theorem conclude (scope : Scope) (hn : scope.environment.natives.IsStandard) (index : UInt8)
    {destination : Option Destination}
    (fits : ∀ d, destination = some d → d.operand.Fits size)
    (positional : List Value) (named : List Argument) :
    Safe size (Action.conclude scope index destination positional named) := by
  unfold Action.conclude
  cases slot : scope.environment.natives.slot index with
  | none => exact throw rfl
  | some native =>
    refine invoke scope index (hn index native slot) positional named fun reply faults => ?_
    cases reply with
    | value v => exact (assignIf fits v).bind fun _ => pure _
    | fault f => exact throw (faults f rfl)
    | send s => exact pure _

/-- **An instruction that does not branch is safe** in a frame that has all its locals. -/
theorem perform (scope : Scope) (hn : scope.environment.natives.IsStandard) {i : Instruction}
    (straight : i.target? = none) (fits : i.Fits size) : Safe size (Action.perform scope i) := by
  cases i with
  | unary op destination source =>
    obtain ⟨written, read⟩ := List.forall_mem_cons.mp fits
    exact (fetchOperand (read source List.mem_cons_self)).bind fun v =>
      (lift (.unaryApply op v)).bind fun r => (assign written r).bind fun _ => pure _
  | binary op destination left right =>
    obtain ⟨written, read⟩ := List.forall_mem_cons.mp fits
    obtain ⟨readLeft, readRight⟩ := List.forall_mem_cons.mp read
    exact (fetchOperand readLeft).bind fun l =>
      (fetchOperand (readRight right List.mem_cons_self)).bind fun r =>
        (lift (.binaryApply op l r)).bind fun v => (assign written v).bind fun _ => pure _
  | goto | gotoIf => cases straight
  | call index destination positional named =>
    obtain ⟨front, fitNamed⟩ := List.forall_mem_append.mp fits
    obtain ⟨fitDestination, fitPositional⟩ := List.forall_mem_append.mp front
    refine (mapM fun o mem => fetchOperand (fitPositional o mem)).bind fun values =>
      (mapM fun n mem => fetchNamed (fitNamed _ (List.mem_map_of_mem mem))).bind fun arguments =>
      conclude scope hn index (fun d hd => fitDestination _ ?_) values arguments
    rw [hd]
    exact List.mem_cons_self
  | handOver => exact pure _
  | leave value => exact (fetchOperand (fits value List.mem_cons_self)).bind fun _ => pure _
  | line number => exact (setLine number).bind fun _ => pure _

end Safe

end Action

/-! ## What becomes of an instruction -/

/-- How a statement ends that consists of `i`, and where its execution then stands, when the code
behind `i` begins at `next` and the frame has `size` locals. -/
inductive Instruction.Outcome (i : Instruction) (size : Nat) (next : Cursor) :
    Except Fault Next → Cursor → Prop where
  | fail {f : Fault} {c : Cursor} (data : f.isData = true) : Outcome i size next (.error f) c
  | pass (goesOn : i.isFinal = false) : Outcome i size next (.ok .proceed) next
  | jump {t : UInt32} (target : i.target? = some t) :
    Outcome i size next (.ok .proceed) { next with offset := t.toNat }
  | await {send : Send} {destination : Option Destination} (goesOn : i.isFinal = false)
      (fits : ∀ d, destination = some d → d.operand.Fits size) :
    Outcome i size next (.ok (.await send destination)) next
  | leave {ending : Ending} {c : Cursor} : Outcome i size next (.ok (.leave ending)) c

namespace Action

variable {scope : Scope} {m m' : Moment} {x : Except Fault Next} {i : Instruction}

/-- A jump to a place among the instructions arrives there. -/
theorem jump_run {target : UInt32} (above : m.execution.codeStart ≤ target.toNat)
    (below : target.toNat < m.execution.cursor.code.size) :
    jump target m = (.ok (), m.moveTo { m.execution.cursor with offset := target.toNat }) := by
  have e : jump target m =
      (if target.toNat < m.execution.codeStart then
        throw (.branchOutOfRange target.toNat m.execution.cursor.code.size)
      else reading (Cursor.seek target.toNat) : Action Unit) m := rfl
  rw [e, if_neg (Nat.not_lt.mpr above), reading_run, Cursor.seek_run, if_pos below]
  rfl

/-- What ends with going on, if it does not fail, passes. -/
theorem outcome_of_proceeds {a : Action Next} {size : Nat} (safe : Safe size a)
    (gives : Gives (· = .proceed) a) (goesOn : i.isFinal = false)
    (frame : m.execution.frame.size = size) (run : a m = (x, m')) :
    i.Outcome size m.execution.cursor x m'.execution.cursor := by
  obtain ⟨-, cursor, faults⟩ := safe m frame
  rw [run] at cursor faults
  match x with
  | .error f => exact .fail (faults f rfl)
  | .ok next =>
    cases gives m next m' run
    rw [show m'.execution.cursor = m.execution.cursor from cursor]
    exact .pass goesOn

/-- What ends with leaving, if it does not fail, leaves. -/
theorem outcome_of_leaves {a : Action Next} {size : Nat} (safe : Safe size a)
    (gives : Gives (fun next => ∃ ending, next = .leave ending) a)
    (frame : m.execution.frame.size = size) (run : a m = (x, m')) :
    i.Outcome size m.execution.cursor x m'.execution.cursor := by
  obtain ⟨-, -, faults⟩ := safe m frame
  rw [run] at faults
  match x with
  | .error f => exact .fail (faults f rfl)
  | .ok next =>
    obtain ⟨ending, rfl⟩ := gives m next m' run
    exact .leave

/-- What becomes of a goto, taken or not. -/
theorem outcome_of_jumpIf {taken : Bool} {target : UInt32} {size : Nat}
    (isTarget : i.target? = some target) (goesOn : taken = false → i.isFinal = false)
    (above : m.execution.codeStart ≤ target.toNat)
    (below : target.toNat < m.execution.cursor.code.size)
    (run : (jumpIf taken target >>= fun _ => pure .proceed) m = (x, m')) :
    i.Outcome size m.execution.cursor x m'.execution.cursor := by
  cases taken with
  | true =>
    rw [jumpIf, if_pos rfl, bind_of_ok (jump_run above below)] at run
    cases run
    exact .jump isTarget
  | false =>
    cases run
    exact .pass (goesOn rfl)

/-- **What becomes of an instruction** that is performed in a frame that has all its locals, and
whose target lies among the instructions. -/
theorem outcome_perform (hn : scope.environment.natives.IsStandard)
    (fits : i.Fits m.execution.frame.size)
    (inside : ∀ t, i.target? = some t →
      m.execution.codeStart ≤ t.toNat ∧ t.toNat < m.execution.cursor.code.size)
    (run : perform scope i m = (x, m')) :
    i.Outcome m.execution.frame.size m.execution.cursor x m'.execution.cursor := by
  have safe (straight : i.target? = none) := Safe.perform scope hn straight fits
  cases i with
  | unary =>
    exact outcome_of_proceeds (safe rfl) (.bind fun _ => .bind fun _ => .bind fun _ => .pure rfl)
      rfl rfl run
  | binary =>
    exact outcome_of_proceeds (safe rfl)
      (.bind fun _ => .bind fun _ => .bind fun _ => .bind fun _ => .pure rfl) rfl rfl run
  | line => exact outcome_of_proceeds (safe rfl) (.bind fun _ => .pure rfl) rfl rfl run
  | handOver => exact outcome_of_leaves (safe rfl) (.pure ⟨_, rfl⟩) rfl run
  | leave => exact outcome_of_leaves (safe rfl) (.bind fun _ => .pure ⟨_, rfl⟩) rfl run
  | goto target =>
    obtain ⟨above, below⟩ := inside target rfl
    have run : (jumpIf true target >>= fun _ => pure .proceed) m = (x, m') := run
    exact outcome_of_jumpIf rfl (fun h => by cases h) above below run
  | gotoIf wanted target condition =>
    have looked := Moment.Looked.fetchOperand condition m
    obtain ⟨-, -, faults⟩ :=
      Safe.fetchOperand (fits condition List.mem_cons_self) m rfl
    obtain ⟨above, below⟩ := inside target rfl
    simp only [perform] at run
    generalize fetched : fetchOperand condition m = outcome at looked faults
    obtain ⟨result, m₁⟩ := outcome
    cases result with
    | error f =>
      rw [bind_of_error fetched] at run
      cases run
      exact .fail (faults f rfl)
    | ok value =>
      rw [bind_of_ok fetched] at run
      have same : m₁.execution = m.execution := looked.execution
      rw [← same]
      rw [← same] at above below
      exact outcome_of_jumpIf rfl (fun _ => rfl) above below run
  | call index destination positional named =>
    obtain ⟨-, cursor, faults⟩ := safe rfl m rfl
    rw [run] at cursor faults
    rw [show m'.execution.cursor = m.execution.cursor from cursor]
    cases x with
    | error f => exact .fail (faults f rfl)
    | ok next =>
      cases next with
      | proceed => exact .pass rfl
      | leave ending => exact .leave
      | await send d =>
        obtain ⟨values, m₁, -, run⟩ := ok_of_bind run
        obtain ⟨arguments, m₂, -, run⟩ := ok_of_bind run
        obtain ⟨rfl, -⟩ := conclude_await run
        refine .await rfl fun d' hd => fits _ ?_
        rw [Instruction.operands, hd]
        exact List.mem_append_left _ (List.mem_append_left _ List.mem_cons_self)

/-- **What becomes of a statement** whose code is in order. -/
theorem outcome_statement (hn : scope.environment.natives.IsStandard) {next : Cursor}
    (decoded : Instruction.decode m.execution.cursor = (.ok i, next))
    (fits : i.Fits m.execution.frame.size)
    (inside : ∀ t, i.target? = some t →
      m.execution.codeStart ≤ t.toNat ∧ t.toNat < next.code.size)
    (run : statement scope m = (x, m')) :
    i.Outcome m.execution.frame.size next x m'.execution.cursor := by
  have opened : (opened scope m).execution = m.execution :=
    (Moment.Looked.opened scope m).execution
  obtain ⟨place, -, same, stays⟩ := (statement_agrees_of_ok scope decoded).exists_place
  rw [run] at same
  generalize performed : perform scope i ((Action.opened scope m).moveTo next) = outcome
    at same stays
  obtain ⟨x', after⟩ := outcome
  cases same
  have becomes := outcome_perform (m := (Action.opened scope m).moveTo next) hn
    (by rw [← opened] at fits; exact fits) (by rw [← opened] at inside; exact inside) performed
  have frame : ((Action.opened scope m).moveTo next).execution.frame.size =
      m.execution.frame.size := by
    show (Action.opened scope m).execution.frame.size = _
    rw [opened]
  rw [frame] at becomes
  -- a statement that fails may have stopped anywhere
  match x' with
  | .error f =>
    cases becomes with
    | fail data => exact .fail data
  | .ok result =>
    show i.Outcome _ next (.ok result) place
    rw [stays result rfl]
    exact becomes

end Action

end MessageMachine
