import MessageMachine.Proofs.Machine.Nesting

/-!
# What an execution comes to

An execution that is at work goes on until a statement leaves it or it fails, with whole runs of
nested sends in between.  `Machine.Completes` follows it up to the state at which it ends: all
that time the callers below it wait, and whenever nothing waits above them the execution itself
is at work.

What is known of an execution while it is at work, when it has failed, and while it waits, is its
`Conduct`.  If each of its own statements keeps a conduct, then whatever the nested sends do, the
conduct holds until the execution ends, and it does end (`Conduct.Holds.exists_completes`).  Nested
sends are treated once and for all here: they only come back with an answer.
-/

namespace MessageMachine

namespace Machine

variable {env : Environment} {m m' : Machine} {base : Callers}

/-- What each step keeps that stays in a stretch holds at the end of the stretch if it holds at its
beginning. -/
theorem Leads.keeps_within {P Q : Machine → Prop} (h : Leads env P m m')
    (keep : ∀ s, P s → P (s.step env) → Q s → Q (s.step env)) (hm : Q m) : Q m' := by
  obtain ⟨n, rfl, hn⟩ := h
  have along (k : Nat) (hk : k ≤ n) : Q ((step env)^[k] m) := by
    induction k with
    | zero => exact hm
    | succ k ih =>
      have next := hn (k + 1) hk
      rw [Function.iterate_succ_apply'] at next ⊢
      exact keep _ (hn k (Nat.le_of_succ_le hk)) next (ih (Nat.le_of_succ_le hk))
  exact along n (Nat.le_refl n)

/-! ## The end of an execution -/

/-- The next step ends the execution at work, with the given result. -/
inductive Ends (env : Environment) (m : Machine) : Except Fault Ending → Prop where
  /-- A statement leaves it. -/
  | leave {e : Execution} {ending : Ending} {moment : Moment} (control : m.control = .execute e)
      (code : e.cursor.atEnd = false) (budget : m.session.statements < env.settings.maxStatements)
      (outcome : Action.statement (m.scope env (m.session.statements + 1)) (m.session.moment e) =
        (.ok (.leave ending), moment)) :
      m.Ends env (.ok ending)
  /-- It has failed. -/
  | fail {e : Execution} {f : Fault} (control : m.control = .abandon e f) : m.Ends env (.error f)

/-- An execution is at work right above the callers `base`, or waits there while others are. -/
structure Hosts (base : Callers) (m : Machine) : Prop where
  above : base.list <:+ m.callers.list
  work : m.callers = base → m.control.execution?.isSome = true

/-- The execution at work in `m` goes on until `ended`, where it ends with the result `r`. -/
structure Completes (env : Environment) (m ended : Machine) (r : Except Fault Ending) : Prop where
  leads : Leads env (Hosts m.callers) m ended
  callers : ended.callers = m.callers
  ends : ended.Ends env r

/-- The execution at work ends with the result `r`. -/
def Returns (env : Environment) (m : Machine) (r : Except Fault Ending) : Prop :=
  ∃ ended, m.Completes env ended r

theorem Ends.running {r : Except Fault Ending} (h : m.Ends env r) : m.control.isHalted = false := by
  cases h with
  | leave control => rw [control]; rfl
  | fail control => rw [control]; rfl

/-- When an execution ends, the same callers wait, and nothing is at work. -/
theorem Ends.step {r : Except Fault Ending} (h : m.Ends env r) :
    (m.step env).callers = m.callers ∧ (m.step env).control.execution? = none := by
  cases h with
  | leave control code budget outcome =>
    unfold Machine.step
    rw [control]
    dsimp only
    rw [execute_eq env m code budget, outcome]
    exact ⟨callers_leave _ _ _ _, execution?_leave _ _ _ _⟩
  | fail control =>
    unfold Machine.step
    rw [control]
    exact ⟨callers_leave _ _ _ _, execution?_leave _ _ _ _⟩

/-- No execution is hosted where one has just ended. -/
theorem Ends.not_hosts {r : Except Fault Ending} (h : m.Ends env r) (callers : m.callers = base) :
    ¬ (m.step env).Hosts base := by
  intro hosts
  have work := hosts.work (h.step.1.trans callers)
  rw [h.step.2] at work
  cases work

end Machine

/-! ## Conduct -/

/-- What is said of an execution while it is at work, when it has failed, and while it waits. -/
structure Conduct where
  works : Execution → Prop
  fails : Execution → Fault → Prop
  waits : Caller → Prop

namespace Conduct

/-- What is said of an execution after a statement of it. -/
def After (p : Conduct) (e : Execution) : Except Fault Next → Prop
  | .error f => p.fails e f
  | .ok .proceed => p.works e
  | .ok (.await send destination) => p.waits ⟨e, send, destination⟩
  | .ok (.leave _) => True

/-- Whatever an execution does keeps the conduct. -/
structure Kept (p : Conduct) (env : Environment) : Prop where
  runOff {e : Execution} (h : p.works e) (code : e.cursor.atEnd = true) : p.fails e .missingReturn
  overrun {e : Execution} (h : p.works e) : p.fails e (.statementBudget env.settings.maxStatements)
  statement {scope : Scope} {m m' : Moment} {x : Except Fault Next}
    (environment : scope.environment = env) (h : p.works m.execution)
    (code : m.execution.cursor.atEnd = false) (run : Action.statement scope m = (x, m')) :
    p.After m'.execution x
  resume {c : Caller} {value : Value} {m m' : Moment} {x : Except Fault Unit} (h : p.waits c)
    (execution : m.execution = c.execution)
    (run : Action.assignIf c.destination value m = (x, m')) :
    p.After m'.execution (x.map fun _ => .proceed)
  abort {c : Caller} {f : Fault} (h : p.waits c) (aborts : f.aborts = true) : p.fails c.execution f

/-- The conduct holds of the execution right above the callers `base`.  While it waits, all that is
active above it is handlers. -/
inductive Holds (p : Conduct) (base : Callers) (m : Machine) : Prop where
  | works {e : Execution} (control : m.control = .execute e) (callers : m.callers = base)
      (h : p.works e)
  | fails {e : Execution} {f : Fault} (control : m.control = .abandon e f)
      (callers : m.callers = base) (h : p.fails e f)
  | waits {c : Caller} {upper : List Caller} (callers : m.callers.list = upper ++ c :: base.list)
      (serving : m.Serving) (handlers : ∀ d ∈ upper, d.execution.role.isSome = true)
      (h : p.waits c)

namespace Holds

variable {p : Conduct} {env : Environment} {base : Callers} {m ended : Machine}

theorem running (h : p.Holds base m) : m.control.isHalted = false := by
  cases h with
  | works control => rw [control]; rfl
  | fails control => rw [control]; rfl
  | waits callers serving => exact serving.running

theorem hosts (h : p.Holds base m) : m.Hosts base := by
  cases h with
  | works control callers =>
    exact ⟨callers ▸ List.suffix_rfl, fun _ => by rw [control]; rfl⟩
  | fails control callers =>
    exact ⟨callers ▸ List.suffix_rfl, fun _ => by rw [control]; rfl⟩
  | @waits c upper callers =>
    refine ⟨?_, fun same => ?_⟩
    · rw [callers]
      exact (List.suffix_cons c base.list).trans (List.suffix_append _ _)
    · have length := congrArg List.length callers
      rw [same, List.length_append, List.length_cons] at length
      omega

/-- The execution at work executes a statement. -/
theorem step_of_works (kept : p.Kept env) {e : Execution} (control : m.control = .execute e)
    (callers : m.callers = base) (h : p.works e) :
    p.Holds base (m.step env) ∨ m.callers = base ∧ ∃ r, m.Ends env r := by
  have t := Machine.transition_step env m (by rw [control]; rfl)
  have same {e' : Execution} (control' : m.control = .execute e') : e = e' := by
    rw [control] at control'
    cases control'
    rfl
  generalize m.step env = m' at t
  cases t with
  | runOff control' code =>
    cases same control'
    exact .inl (.fails rfl callers (kept.runOff h code))
  | overrun control' =>
    cases same control'
    exact .inl (.fails rfl callers (kept.overrun h))
  | fail control' code _ outcome =>
    cases same control'
    exact .inl (.fails rfl callers (kept.statement rfl h code outcome))
  | proceed control' code _ outcome =>
    cases same control'
    exact .inl (.works rfl callers (kept.statement rfl h code outcome))
  | await control' code _ outcome =>
    cases same control'
    have waits := kept.statement rfl h code outcome
    have pushed {c : Caller} : (m.callers.push c).list = [] ++ c :: base.list := by
      rw [Callers.list_push, callers]
      rfl
    exact .inl (.waits pushed ⟨rfl, fun x hx => by cases hx⟩ (fun d hd => by cases hd) waits)
  | finish control' code budget outcome =>
    exact .inr ⟨callers, _, .leave control' code budget outcome⟩
  | reject control' | accept control' | begin control' | miss control' | exhaust control'
  | abandon control' | halt control' | resume control' | misfit control' | abort control' =>
    rw [control] at control'
    cases control'

/-- The execution gets the answer that it waits for. -/
theorem step_of_answered (kept : p.Kept env) {r : Except Fault Value} {c : Caller}
    (control : m.control = .answer r) (pop : m.callers.pop? = some (c, base)) (h : p.waits c) :
    p.Holds base (m.step env) := by
  have t := Machine.transition_step env m (by rw [control]; rfl)
  generalize m.step env = m' at t
  cases t with
  | halt control' top =>
    rw [pop] at top
    cases top
  | resume control' pop' seen outcome =>
    rw [pop] at pop'
    cases pop'
    exact .works rfl rfl (kept.resume h rfl outcome)
  | misfit control' pop' seen outcome =>
    rw [pop] at pop'
    cases pop'
    exact .fails rfl rfl (kept.resume h rfl outcome)
  | abort control' pop' aborts =>
    rw [pop] at pop'
    cases pop'
    exact .fails rfl rfl (kept.abort h aborts)
  | reject control' | accept control' | begin control' | miss control' | exhaust control'
  | runOff control' | overrun control' | fail control' | proceed control' | await control'
  | finish control' | abandon control' =>
    rw [control] at control'
    cases control'

/-- Others are active above the execution that waits. -/
theorem step_of_waits (kept : p.Kept env) {c : Caller} {upper : List Caller}
    (callers : m.callers.list = upper ++ c :: base.list) (serving : m.Serving)
    (handlers : ∀ d ∈ upper, d.execution.role.isSome = true) (h : p.waits c) :
    p.Holds base (m.step env) := by
  have t := Machine.transition_step env m serving.running
  by_cases answered : ∃ r, m.control = .answer r
  · obtain ⟨r, control⟩ := answered
    cases upper with
    | nil => exact step_of_answered kept control (Callers.pop?_of_list callers) h
    | cons d upper =>
      obtain ⟨⟨d', rest⟩, pop⟩ : ∃ q, m.callers.pop? = some q := by
        cases pop : m.callers.pop? with
        | none =>
          rw [Callers.list_of_pop?_none pop] at callers
          cases callers
        | some q => exact ⟨q, rfl⟩
      have list := Callers.list_of_pop? pop
      rw [callers] at list
      injection list with same list
      subst same
      obtain ⟨serving', callers'⟩ := t.serving_of_answer control pop (handlers d List.mem_cons_self)
      exact .waits (callers' ▸ list.symm) serving'
        (fun x hx => handlers x (List.mem_cons_of_mem d hx)) h
  · obtain ⟨serving', same | ⟨d, role, push⟩⟩ :=
      t.serving_cases serving fun r control => answered ⟨r, control⟩
    · exact .waits (same ▸ callers) serving' handlers h
    · have pushed : (m.step env).callers.list = (d :: upper) ++ c :: base.list := by
        rw [push, Callers.list_push, callers]
        rfl
      exact .waits pushed serving' (List.forall_mem_cons.mpr ⟨role, handlers⟩) h

/-- **A step keeps the conduct** unless it ends the execution. -/
theorem step (kept : p.Kept env) (h : p.Holds base m) :
    p.Holds base (m.step env) ∨ m.callers = base ∧ ∃ r, m.Ends env r := by
  cases h with
  | works control callers h => exact step_of_works kept control callers h
  | fails control callers => exact .inr ⟨callers, _, .fail control⟩
  | waits callers serving handlers h => exact .inl (step_of_waits kept callers serving handlers h)

theorem exists_end (kept : p.Kept env) (h : p.Holds base m) :
    ∃ ended r, Machine.Leads env (p.Holds base) m ended ∧ ended.callers = base ∧
      ended.Ends env r := by
  induction n : m.potential env using Nat.strongRecOn generalizing m with
  | _ n ih =>
    rcases h.step kept with next | ⟨callers, r, ends⟩
    · obtain ⟨ended, r, leads, rest⟩ :=
        ih _ (n ▸ Machine.potential_step env m h.running) next rfl
      exact ⟨ended, r, (Machine.Leads.single h next).trans leads, rest⟩
    · exact ⟨m, r, .refl h, callers, ends⟩

/-- **An execution ends**, and it does so in accordance with its conduct. -/
theorem exists_completes (kept : p.Kept env) (h : p.Holds m.callers m) :
    ∃ ended r, m.Completes env ended r ∧ p.Holds m.callers ended := by
  obtain ⟨ended, r, leads, callers, ends⟩ := h.exists_end kept
  exact ⟨ended, r, ⟨leads.mono fun s hs => hs.hosts, callers, ends⟩, leads.last⟩

/-- Wherever an execution ends, it does so in accordance with its conduct. -/
theorem of_completes (kept : p.Kept env) (h : p.Holds m.callers m) {r : Except Fault Ending}
    (completes : m.Completes env ended r) : p.Holds m.callers ended := by
  refine completes.leads.keeps_within (fun s _ next holds => ?_) h
  rcases holds.step kept with next' | ⟨callers, r, ends⟩
  · exact next'
  · exact absurd next (ends.not_hosts callers)

/-- The conduct at the end of an execution. -/
theorem of_ends (h : p.Holds base m) (callers : m.callers = base) {r : Except Fault Ending}
    (ends : m.Ends env r) :
    (∃ e, m.control = .execute e ∧ p.works e) ∨
      ∃ e f, m.control = .abandon e f ∧ r = .error f ∧ p.fails e f := by
  cases h with
  | works control _ h => exact .inl ⟨_, control, h⟩
  | fails control _ h =>
    cases ends with
    | leave control' =>
      rw [control] at control'
      cases control'
    | fail control' =>
      rw [control] at control'
      cases control'
      exact .inr ⟨_, _, control, rfl, h⟩
  | @waits c upper callers' =>
    have length := congrArg List.length callers'
    rw [callers, List.length_append, List.length_cons] at length
    omega

end Holds

/-- The execution is carried on, and nothing else is said of it. -/
def carriedOn (x : Execution) : Conduct where
  works e := x.Continues e
  fails e _ := x.Continues e
  waits c := x.Continues c.execution

/-- **Every execution is carried on until it ends**, whatever its code and its natives are. -/
theorem kept_carriedOn (x : Execution) (env : Environment) : (carriedOn x).Kept env where
  runOff h _ := h
  overrun h := h
  statement {scope m m' outcome} environment h code run := by
    have continues := h.trans (Action.continues_statement run)
    match outcome with
    | .error f => exact continues
    | .ok .proceed => exact continues
    | .ok (.await send destination) => exact continues
    | .ok (.leave ending) => trivial
  resume {c value m m' outcome} h execution run := by
    have follows := ((Action.Tame.assignIf _ _).of_run run).1.execution
    rw [execution] at follows
    have continues := h.trans follows
    match outcome with
    | .ok () => exact continues
    | .error f => exact continues
  abort h _ := h

end Conduct

namespace Machine

variable {env : Environment} {m ended : Machine} {x : Execution}

theorem holds_carriedOn (work : m.control.execution? = some x) :
    (Conduct.carriedOn x).Holds m.callers m := by
  cases control : m.control with
  | execute e =>
    rw [control] at work
    cases work
    exact .works control rfl (.refl x)
  | abandon e f =>
    rw [control] at work
    cases work
    exact .fails control rfl (.refl x)
  | dispatch | seek | answer | halted =>
    rw [control] at work
    cases work

/-- **Every execution at work comes to an end.** -/
theorem exists_completes (env : Environment) (work : m.control.execution? = some x) :
    ∃ ended r, m.Completes env ended r := by
  obtain ⟨ended, r, completes, -⟩ :=
    (holds_carriedOn work).exists_completes (Conduct.kept_carriedOn x env)
  exact ⟨ended, r, completes⟩

/-- The step that ends an execution leaves it. -/
theorem Completes.exists_leave (work : m.control.execution? = some x) {r : Except Fault Ending}
    (completes : m.Completes env ended r) :
    ∃ (m' : Machine) (e : Execution), x.Continues e ∧ ended.step env = m'.leave env e r := by
  have holds := (holds_carriedOn work).of_completes (Conduct.kept_carriedOn x env) completes
  unfold Machine.step
  rcases holds.of_ends completes.callers completes.ends with
    ⟨e, control, continues⟩ | ⟨e, f, control, rfl, continues⟩
  · cases completes.ends with
    | leave control' code budget outcome =>
      rw [control] at control'
      cases control'
      rw [control]
      dsimp only
      rw [execute_eq env ended code budget, outcome]
      exact ⟨_, _, continues.trans (Action.continues_statement outcome), rfl⟩
    | fail control' =>
      rw [control] at control'
      cases control'
  · rw [control]
    exact ⟨_, e, continues, rfl⟩

/-- **What follows the end of a handler** is its answer, or the search for the handler above it. -/
theorem Completes.followUp (work : m.control.execution? = some x) {h : Handling}
    (role : x.role = some h) {r : Except Fault Ending} (completes : m.Completes env ended r) :
    (ended.step env).control = h.followUp r := by
  obtain ⟨m', e, continues, stepped⟩ := completes.exists_leave work
  obtain ⟨line, role'⟩ := continues.exists_line role
  rw [stepped, leave_handler env m' role']
  rfl

/-- **Code that runs on its own** has the machine halt with its result when it ends. -/
theorem Completes.halts (work : m.control.execution? = some x) (role : x.role = none)
    {r : Except Fault Ending} (completes : m.Completes env ended r) :
    ∃ e, (m.run env).control = .halted r (some e) := by
  obtain ⟨m', e, continues, stepped⟩ := completes.exists_leave work
  have role' : e.role = none := by
    rw [← Option.isNone_iff_eq_none, ← Option.not_isSome, continues.isSome_role, role]
    rfl
  have control : (ended.step env).control = .halted r (some e) := by
    rw [stepped, Machine.leave, role']
  obtain ⟨n, reached, -⟩ := completes.leads
  have run : m.run env = ended.step env := by
    rw [← reached, ← Function.iterate_succ_apply' (step env)]
    refine run_eq_iterate env (n + 1) m ?_
    rw [Function.iterate_succ_apply', reached, control]
    rfl
  exact ⟨e, run ▸ control⟩

end Machine

end MessageMachine
