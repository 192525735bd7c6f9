import MessageMachine.Proofs.Machine.Budget
import MessageMachine.Proofs.Machine.Nesting

/-!
# Every failure is recorded once

A fault is recorded when the execution that it arose in is abandoned, or when a send is refused.  On
its way outwards it may pass many executions, each of which is abandoned in turn; but the session
remembers the fault that is on its way, and does not record it again.  It forgets it when a sender
goes on with nil, so that the same fault is recorded anew when it arises a second time.

## The account

`Journal.Records j j' fs` says that a journal has grown from `j` to `j'`, and that the growth
records the faults `fs`, in order.  One step balances the fault that was on its way before, the
faults that are recorded, the fault that a sender forgives, and the fault that is on its way
afterwards (`Transition.records`).  Along a run these equations telescope (`Machine.records_run`):
the faults recorded are the faults forgiven, and last the one that the send from the top fails with.

The balance needs to know that a fault on its way is remembered truly, which is the invariant
`Machine.Candid`.
-/

namespace MessageMachine

/-! ## Records of faults -/

namespace Entry

/-- The fault that an entry records. -/
def recorded? : Entry → Option Fault
  | fault _ f => some f
  | _ => none

/-- Is the entry a record of the gravest level? -/
def isError (x : Entry) : Bool := x.address?.any fun address => address.1 = .error

/-- Is the entry a request to write the log out? -/
def isFlush : Entry → Bool
  | flush => true
  | _ => false

/-- The records of the gravest level are the records of faults. -/
theorem isError_eq (x : Entry) : x.isError = x.recorded?.isSome := by
  cases x <;> rfl

/-- A record of the gravest level is of one fault, and goes to the channel for the class of it. -/
theorem address?_of_isError {x : Entry} (h : x.isError = true) :
    ∃ stack f, x = .fault stack f ∧ x.address? = some (.error, f.faultClass.channel) := by
  cases x with
  | fault stack f => exact ⟨stack, f, rfl, rfl⟩
  | _ => cases h

/-- Remarks are neither records of faults nor requests to write the log out. -/
theorem quiet_of_isRemark {x : Entry} (h : x.isRemark = true) :
    x.recorded? = none ∧ x.isFlush = false := by
  cases x with
  | fault | sendFailed | postFailed | sendEnded | flush | note => cases h
  | unwrittenRead | postRefused | shown | instruction | nativeCall => exact ⟨rfl, rfl⟩

end Entry

/-- The fault that a send has failed with. -/
def failure? : Except Fault Value → Option Fault
  | .error f => some f
  | .ok _ => none

/-- Is the fault an exceeded limit? -/
def Fault.isLimit (f : Fault) : Bool := f.faultClass = .resourceLimit

/-- The journal has grown by entries that record the faults `fs`, in order, and that ask for the log
to be written out as often as one of these is an exceeded limit. -/
def Journal.Records (j j' : Journal) (fs : List Fault) : Prop :=
  ∃ added : List Entry, j'.toList = j.toList ++ added ∧
    added.filterMap Entry.recorded? = fs ∧
    added.countP Entry.isFlush = fs.countP Fault.isLimit

namespace Journal.Records

theorem refl (j : Journal) : j.Records j [] :=
  ⟨[], (List.append_nil _).symm, rfl, rfl⟩

theorem trans {j j' j'' : Journal} {fs fs' : List Fault} (h : j.Records j' fs)
    (h' : j'.Records j'' fs') : j.Records j'' (fs ++ fs') := by
  obtain ⟨added, e, recorded, flushes⟩ := h
  obtain ⟨added', e', recorded', flushes'⟩ := h'
  refine ⟨added ++ added', ?_, ?_, ?_⟩
  · rw [e', e, List.append_assoc]
  · rw [List.filterMap_append, recorded, recorded']
  · rw [List.countP_append, List.countP_append, flushes, flushes']

/-- One entry more, which records nothing. -/
theorem push {j : Journal} {x : Entry} (recorded : x.recorded? = none) (flush : x.isFlush = false) :
    j.Records (j.push x) [] := by
  refine ⟨[x], Array.toList_push, ?_, ?_⟩
  · rw [List.filterMap_cons_none recorded, List.filterMap_nil]
  · rw [List.countP_singleton, flush]
    rfl

/-- Remarks record nothing. -/
theorem of_remarked {j j' : Journal} (h : j.Remarked j') : j.Records j' [] := by
  obtain ⟨remarks, e, quiet⟩ := h
  refine ⟨remarks, e, ?_, ?_⟩
  · rw [List.filterMap_eq_nil_iff]
    exact fun x hx => (Entry.quiet_of_isRemark (quiet x hx)).1
  · rw [List.countP_nil, List.countP_eq_zero]
    intro x hx
    rw [(Entry.quiet_of_isRemark (quiet x hx)).2]
    exact Bool.false_ne_true

end Journal.Records

/-! ## Bookkeeping -/

namespace Session

/-- A fault that is not on its way yet is recorded. -/
theorem records_report (s : Session) (stack : List Activation) {f : Fault}
    (h : s.unwinding ≠ some f) :
    s.world.journal.Records (s.report stack f).world.journal [f] := by
  unfold report
  rw [if_neg h]
  dsimp only
  by_cases limit : f.faultClass = .resourceLimit
  · rw [if_pos limit]
    refine ⟨[.fault stack f, .flush], ?_, rfl, ?_⟩
    · simp [World.log]
    · simp [Entry.isFlush, Fault.isLimit, limit]
  · rw [if_neg limit]
    refine ⟨[.fault stack f], ?_, rfl, ?_⟩
    · simp [World.log]
    · simp [Entry.isFlush, Fault.isLimit, limit]

@[simp] theorem unwinding_report (s : Session) (stack : List Activation) (f : Fault) :
    (s.report stack f).unwinding = some f := by
  unfold report
  split
  · assumption
  · rfl

/-- A fault that is on its way is not recorded again. -/
theorem report_of_unwinding {s : Session} {f : Fault} (h : s.unwinding = some f)
    (stack : List Activation) : s.report stack f = s := if_pos h

@[simp] theorem unwinding_keepTime (env : Environment) (s : Session) (h : Handling) :
    (Machine.keepTime env s h).unwinding = s.unwinding := by
  unfold Machine.keepTime
  split <;> rfl

@[simp] theorem journal_keepTime (env : Environment) (s : Session) (h : Handling) :
    (Machine.keepTime env s h).world.journal = s.world.journal := by
  unfold Machine.keepTime
  split <;> rfl

/-- Forgiving a failure, or passing it on, records nothing. -/
theorem records_forgive (s : Session) (c : Caller) (r : Except Fault Value) :
    s.world.journal.Records (s.forgive c r).world.journal [] := by
  unfold forgive
  split
  · exact .refl _
  split
  · exact .refl _
  · exact .push rfl rfl

end Session

namespace Machine

@[simp] theorem unwinding_leave (env : Environment) (m : Machine) (e : Execution)
    (result : Except Fault Ending) :
    (m.leave env e result).session.unwinding = m.session.unwinding := by
  unfold leave
  split
  · rfl
  · exact Session.unwinding_keepTime env m.session _

@[simp] theorem journal_leave (env : Environment) (m : Machine) (e : Execution)
    (result : Except Fault Ending) :
    (m.leave env e result).session.world.journal = m.session.world.journal := by
  unfold leave
  split
  · rfl
  · exact Session.journal_keepTime env m.session _

/-! ## One step -/

/-- The fault of a nested send that its sender is about to see nil in the place of. -/
def forgiven? (m : Machine) : Option Fault :=
  match m.control, m.callers.pop? with
  | .answer (.error f), some _ => if f.aborts then none else some f
  | _, _ => none

theorem forgiven?_of_fault?_none {m : Machine} (h : m.control.fault? = none) :
    m.forgiven? = none := by
  unfold forgiven?
  split
  · rename_i control _
    rw [control] at h
    cases h
  · rfl

theorem forgiven?_of_abandon {m : Machine} {e : Execution} {f : Fault}
    (control : m.control = .abandon e f) : m.forgiven? = none := by
  rw [forgiven?, control]

/-- **A failure is forgiven when it is replaced by nil**: it does not abort, there is a sender to
answer, and the sender is resumed with nil. -/
theorem forgiven?_eq_some_iff (env : Environment) (m : Machine) (f : Fault) :
    m.forgiven? = some f ↔
      m.control = .answer (.error f) ∧ f.aborts = false ∧
        ∃ c callers, m.callers.pop? = some (c, callers) ∧
          m.step env =
            { m with callers, session := m.session.forgive c (.error f) : Machine }.resume
              c .nil := by
  constructor
  · intro h
    unfold forgiven? at h
    split at h
    · rename_i g p control pop
      split at h
      · cases h
      · rename_i ordinary
        cases h
        obtain ⟨c, callers⟩ := p
        refine ⟨control, eq_false_of_ne_true ordinary, c, callers, pop, ?_⟩
        have answer : m.step env = m.answer (.error f) := by
          unfold step
          rw [control]
        have seen : contained (.error f) = .ok .nil := if_neg ordinary
        rw [answer, answer_eq, pop]
        dsimp only
        rw [seen]
    · cases h
  · rintro ⟨control, ordinary, c, callers, pop, -⟩
    rw [forgiven?, control, pop]
    simp only [ordinary, Bool.false_eq_true, if_false]

/-- The fault that is on its way is remembered truly.  Only an execution that has just failed may be
abandoned for a fault that has not been recorded. -/
def Candid (m : Machine) : Prop :=
  m.session.unwinding = m.control.fault? ∨
    m.session.unwinding = none ∧ ∃ e f, m.control = .abandon e f

/-- Nothing is on its way unless the control says so. -/
theorem Candid.none_of_fault? {m : Machine} (h : m.Candid) (fault : m.control.fault? = none) :
    m.session.unwinding = none := by
  rcases h with h | ⟨h, -⟩
  · rw [h, fault]
  · exact h

/-- A fault that is answered, or that the machine has halted with, is remembered. -/
theorem Candid.unwinding_eq {m : Machine} (h : m.Candid) (work : m.control.execution? = none) :
    m.session.unwinding = m.control.fault? := by
  rcases h with h | ⟨-, e, f, control⟩
  · exact h
  · rw [control] at work
    cases work

theorem unwinding_forgive_of_error (s : Session) (c : Caller) {f : Fault} (h : f.aborts = false) :
    (s.forgive c (.error f)).unwinding = none := by
  have e : s.forgive c (.error f) = if f.aborts then s else _ := rfl
  rw [e, if_neg (by rw [h]; exact Bool.false_ne_true)]

/-- Nothing is on its way any more when a sender has seen a value. -/
theorem unwinding_forgive {m : Machine} (h : m.Candid) {r : Except Fault Value}
    (control : m.control = .answer r) (c : Caller) {v : Value} (seen : contained r = .ok v) :
    (m.session.forgive c r).unwinding = none := by
  cases r with
  | ok v =>
    refine h.none_of_fault? ?_
    rw [control]
    rfl
  | error f => exact unwinding_forgive_of_error m.session c (aborts_of_contained seen)

end Machine

namespace Transition

open Machine

variable {env : Environment} {m m' : Machine}

/-- **Every step remembers the fault on its way truly.** -/
theorem candid (t : Transition env m m') (h : m.Candid) : m'.Candid := by
  -- an execution that has just failed
  have fresh (quiet : m.control.fault? = none) {session : Session}
      (same : session.unwinding = m.session.unwinding) (callers : Callers) (e : Execution)
      (f : Fault) : Candid { session, callers, control := .abandon e f } :=
    .inr ⟨same.trans (h.none_of_fault? quiet), e, f, rfl⟩
  cases t with
  | reject | miss => exact .inl (Session.unwinding_report _ _ _)
  | accept control | begin control | exhaust control | proceed control | await control =>
    exact .inl (h.none_of_fault? (by rw [control]; rfl))
  | runOff control | overrun control | fail control =>
    exact fresh (by rw [control]; rfl) rfl m.callers _ _
  | finish control =>
    refine .inl ?_
    rw [unwinding_leave, fault?_leave]
    exact h.none_of_fault? (by rw [control]; rfl)
  | abandon control =>
    refine .inl ?_
    rw [Machine.abandon, unwinding_leave, fault?_leave]
    exact Session.unwinding_report _ _ _
  | @halt r control =>
    refine .inl ?_
    show m.session.unwinding = _
    rw [h.unwinding_eq (by rw [control]; rfl), control]
    cases r <;> rfl
  | resume control _ seen => exact .inl (unwinding_forgive h control _ seen)
  | misfit control _ seen => exact .inr ⟨unwinding_forgive h control _ seen, _, _, rfl⟩
  | abort control =>
    refine .inl ?_
    show m.session.unwinding = _
    rw [h.unwinding_eq (by rw [control]; rfl), control]
    rfl

/-- **The balance of one step.**  What was on its way and what is recorded is what is forgiven and
what is on its way now. -/
theorem records (hn : env.natives.IsStandard) (t : Transition env m m') (h : m.Candid) :
    ∃ fs, m.session.world.journal.Records m'.session.world.journal fs ∧
      m.session.unwinding.toList ++ fs = m.forgiven?.toList ++ m'.session.unwinding.toList := by
  -- nothing is recorded or forgiven, and the same is on its way
  have quiet (none : m.forgiven? = none) {s' : Session}
      (records : m.session.world.journal.Records s'.world.journal [])
      (same : s'.unwinding = m.session.unwinding) :
      ∃ fs, m.session.world.journal.Records s'.world.journal fs ∧
        m.session.unwinding.toList ++ fs = m.forgiven?.toList ++ s'.unwinding.toList :=
    ⟨[], records, by rw [none, same, List.append_nil]; rfl⟩
  have statement {e : Execution} {x : Except Fault Next} {moment : Moment}
      (outcome : Action.statement (m.scope env (m.session.statements + 1)) (m.session.moment e) =
        (x, moment)) : m.session.world.journal.Records moment.world.journal [] :=
    .of_remarked ((Action.Tame.statement _ hn).of_run outcome).1.journal
  -- a fault is recorded, of which nothing was on its way
  have refusal {f : Fault} (none : m.control.fault? = none) :
      ∃ fs, m.session.world.journal.Records (m.refuse f).session.world.journal fs ∧
        m.session.unwinding.toList ++ fs =
          m.forgiven?.toList ++ (m.refuse f).session.unwinding.toList := by
    have idle := h.none_of_fault? none
    refine ⟨[f], Session.records_report _ _ (by rw [idle]; exact (Option.some_ne_none f).symm), ?_⟩
    rw [forgiven?_of_fault?_none none, idle, refuse, Session.unwinding_report]
    rfl
  -- a sender goes on with what it has seen
  have answered {r : Except Fault Value} {c : Caller} {callers : Callers} {v : Value}
      {x : Except Fault Unit} {moment : Moment} (control : m.control = .answer r)
      (pop : m.callers.pop? = some (c, callers)) (seen : contained r = .ok v)
      (outcome : Action.assignIf c.destination v ((m.session.forgive c r).moment c.execution) =
        (x, moment)) :
      ∃ fs, m.session.world.journal.Records moment.world.journal fs ∧
        m.session.unwinding.toList ++ fs =
          m.forgiven?.toList ++ (m.session.forgive c r).unwinding.toList := by
    have written : (m.session.forgive c r).world.journal.Records moment.world.journal [] :=
      .of_remarked ((Action.Tame.assignIf _ _).of_run outcome).1.journal
    refine ⟨[], (Session.records_forgive m.session c r).trans written, ?_⟩
    rw [h.unwinding_eq (by rw [control]; rfl), unwinding_forgive h control c seen, control]
    cases r with
    | ok v => rw [forgiven?_of_fault?_none (by rw [control]; rfl)]; rfl
    | error f =>
      have ordinary : f.aborts = false := aborts_of_contained seen
      rw [forgiven?, control, pop]
      simp only [ordinary, Bool.false_eq_true, if_false]
      rfl
  cases t with
  | reject control | miss control => exact refusal (by rw [control]; rfl)
  | accept control | begin control | exhaust control | runOff control | overrun control =>
    exact quiet (forgiven?_of_fault?_none (by rw [control]; rfl)) (.refl _) rfl
  | fail control _ _ outcome | proceed control _ _ outcome | await control _ _ outcome =>
    exact quiet (forgiven?_of_fault?_none (by rw [control]; rfl)) (statement outcome) rfl
  | finish control _ _ outcome =>
    refine quiet (forgiven?_of_fault?_none (by rw [control]; rfl)) ?_ (unwinding_leave env _ _ _)
    rw [journal_leave]
    exact statement outcome
  | @abandon e f control =>
    rw [forgiven?_of_abandon control, Machine.abandon, unwinding_leave, journal_leave,
      Session.unwinding_report]
    rcases h with known | ⟨unknown, -⟩
    · -- the fault has been recorded before
      have known : m.session.unwinding = some f := by rw [known, control]; rfl
      rw [Session.report_of_unwinding known, known]
      exact ⟨[], .refl _, rfl⟩
    · rw [unknown]
      exact ⟨[f], Session.records_report _ _ (by rw [unknown]; exact (Option.some_ne_none f).symm),
        rfl⟩
  | @halt r control top =>
    refine quiet ?_ (.refl _) rfl
    rw [forgiven?, control, top]
    cases r <;> rfl
  | resume control pop seen outcome => exact answered control pop seen outcome
  | misfit control pop seen outcome => exact answered control pop seen outcome
  | @abort f c callers control pop aborts =>
    refine quiet ?_ (.refl _) rfl
    rw [forgiven?, control, pop]
    exact if_pos aborts

end Transition

/-! ## A run -/

namespace Machine

/-- **The balance of a run.** -/
theorem records_run (env : Environment) (hn : env.natives.IsStandard) (m : Machine)
    (h : m.Candid) :
    (m.run env).Candid ∧
      ∃ fs, m.session.world.journal.Records (m.run env).session.world.journal fs ∧
        m.session.unwinding.toList ++ fs =
          (m.trace env).filterMap forgiven? ++ (m.run env).session.unwinding.toList := by
  induction m using run_induction env with
  | halted m hm =>
    rw [run_of_halted env hm, trace_of_halted env hm]
    refine ⟨h, [], .refl _, ?_⟩
    have none : m.forgiven? = none := by
      unfold forgiven?
      split
      · rename_i control _
        rw [control] at hm
        cases hm
      · rfl
    rw [List.filterMap_cons_none none, List.filterMap_nil, List.append_nil, List.nil_append]
  | running m hm ih =>
    have t := transition_step env m hm
    obtain ⟨fs, records, balance⟩ := t.records hn h
    rw [run_step] at ih
    obtain ⟨candid, fs', records', balance'⟩ := ih (t.candid h)
    refine ⟨candid, fs ++ fs', records.trans records', ?_⟩
    rw [trace_of_running env hm, ← List.append_assoc, balance, List.append_assoc, balance',
      ← List.append_assoc]
    cases forgiven : m.forgiven? with
    | none => rw [List.filterMap_cons_none forgiven]; rfl
    | some f => rw [List.filterMap_cons_some forgiven]; rfl

/-- Nothing is at work when a machine has halted. -/
theorem execution?_of_halted {m : Machine} (h : m.control.isHalted = true) :
    m.control.execution? = none := by
  cases control : m.control with
  | halted r e => rfl
  | _ =>
    rw [control] at h
    cases h

theorem candid_ofSend (session : Session) (send : Send) (h : session.unwinding = none) :
    (ofSend session send).Candid :=
  .inl h

/-- The fault that a machine has halted with is the one that its answer fails with. -/
theorem fault?_eq_of_halted {m : Machine} (h : m.control.isHalted = true) :
    m.control.fault? = failure? m.result := by
  generalize result : m.result = r
  cases r with
  | error f => exact (result_eq_error_iff h f).mp result
  | ok v =>
    cases fault : m.control.fault? with
    | none => rfl
    | some f =>
      rw [(result_eq_error_iff h f).mpr fault] at result
      cases result

end Machine

/-! ## Top-level sends -/

namespace Engine

/-- **Every failure of a top-level send is recorded exactly once.**  Let the natives be standard.
The faults that the send records at the gravest level are, in order, those of the nested sends
whose failure was replaced by nil, and then the one that it fails with itself, if it does.  So one
that unwinds through many handlers is recorded once, and equal ones that follow each other are
recorded each.  Each record goes to the channel for its class, and the log is written out once for
each exceeded limit. -/
theorem send_records_failures_once (e : Engine) (hn : e.natives.IsStandard) (send : Send) :
    let forgiven := (e.states send).filterMap Machine.forgiven?
    let failed := failure? (e.send send).1
    (∀ m ∈ e.states send, ∀ f, m.forgiven? = some f ↔
      m.control = .answer (.error f) ∧ f.aborts = false ∧
        ∃ c callers, m.callers.pop? = some (c, callers) ∧
          m.step e.environment =
            { m with callers, session := m.session.forgive c (.error f) : Machine }.resume c .nil) ∧
    ∃ emitted : List Entry,
      (e.send send).2.world.journal.toList = e.world.journal.toList ++ emitted ∧
      emitted.countP Entry.isError = forgiven.length + (if failed.isSome then 1 else 0) ∧
      emitted.filterMap Entry.recorded? = forgiven ++ failed.toList ∧
      (∀ x ∈ emitted, x.isError = true →
        ∃ stack f channel, x = .fault stack f ∧ x.address? = some (.error, channel) ∧
          channel.target =
            if f.faultClass = .malformedCode ∨ f.faultClass = .resourceLimit then "blakod::error"
            else "blakod::bad_kod") ∧
      emitted.countP Entry.isFlush =
        (emitted.filterMap Entry.recorded?).countP fun f => f.faultClass = .resourceLimit := by
  intro forgiven failed
  have start : (e.start send).Candid := Machine.candid_ofSend _ send rfl
  obtain ⟨candid, fs, run, balance⟩ := Machine.records_run e.environment hn (e.start send) start
  have halted := Machine.isHalted_run e.environment (e.start send)
  -- what is on its way when the run has halted is what the send fails with
  have last : ((e.start send).run e.environment).session.unwinding = failed := by
    rw [candid.unwinding_eq (Machine.execution?_of_halted halted)]
    exact Machine.fault?_eq_of_halted halted
  have recorded : fs = forgiven ++ failed.toList := by
    rw [last] at balance
    exact balance
  -- the end of the send is recorded too
  obtain ⟨emitted, journal, faults, flushes⟩ := run.trans (.push (x := .sendEnded send
    ((e.start send).run e.environment).session.statements _) rfl rfl)
  rw [List.append_nil, recorded] at faults
  rw [List.append_nil, recorded] at flushes
  refine ⟨fun m _ f => m.forgiven?_eq_some_iff e.environment f, emitted, journal, ?_, faults,
    ?_, ?_⟩
  · have count : emitted.countP Entry.isError = (emitted.filterMap Entry.recorded?).length := by
      rw [List.length_filterMap_eq_countP]
      exact congrArg (List.countP · emitted) (funext Entry.isError_eq)
    rw [count, faults, List.length_append]
    cases failed <;> rfl
  · intro x _ grave
    obtain ⟨stack, f, rfl, address⟩ := Entry.address?_of_isError grave
    refine ⟨stack, f, _, rfl, address, ?_⟩
    cases f.faultClass <;> rfl
  · rw [faults]
    exact flushes

/-- An engine with one object, whose handler for message 1 sends it message 1 twice, where only one
handler may run at a time. -/
def knocking : Engine :=
  ofBody { maxDepth := 1 } []
    #[0, 0, 0x60, 0, 2, 2, 0, 0, 0, 0x20, 2, 1, 0, 0, 0xB0, 0,
      0x60, 0, 2, 2, 0, 0, 0, 0x20, 2, 1, 0, 0, 0xB0, 0, 0x98, 0, 0, 0, 0]

theorem send_records_failures_once_knocking :
    let send : Send := ⟨⟨0⟩, ⟨1⟩, []⟩
    knocking.natives.IsStandard ∧ failure? (knocking.send send).1 = none ∧
      (knocking.states send).filterMap Machine.forgiven? =
        [.recursionLimit 1, .recursionLimit 1] := by
  intro send
  have natives : knocking.natives.IsStandard := NativeTable.isStandard_standard
  have halts : ((Machine.step knocking.environment)^[10]
      (knocking.start send)).control.isHalted = true := by decide +kernel
  have run := Machine.run_eq_iterate _ 10 _ halts
  have succeeds : failure? (knocking.send send).1 = none := by
    rw [send_eq, run]
    decide +kernel
  have recorded : (knocking.send send).2.world.journal.toList.filterMap Entry.recorded? =
      [.recursionLimit 1, .recursionLimit 1] := by
    rw [send_eq, run]
    decide +kernel
  obtain ⟨-, emitted, journal, -, faults, -⟩ := send_records_failures_once knocking natives send
  refine ⟨natives, succeeds, ?_⟩
  rw [journal, show knocking.world.journal.toList = [] from rfl, List.nil_append, faults, succeeds]
    at recorded
  simpa using recorded

end Engine

end MessageMachine
