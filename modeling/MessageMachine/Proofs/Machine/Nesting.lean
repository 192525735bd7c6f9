import MessageMachine.Proofs.Machine.Trace
import MessageMachine.Proofs.Statement.Continuity

/-!
# Nested sends

A statement that makes a send leaves its execution waiting, on top of the callers that wait already.
What follows is a run of its own, as long as nothing touches these callers; and `exists_answer` says
that it comes to an end: the machine gets to the answer of that send, with the same callers waiting
as at its beginning, and at no state in between fewer of them.  The induction is on the potential.
It needs no idea of how deep the nesting goes, since a nested send and what follows its answer are
both later in the run than the statement that made it.

## Activity

The *active* executions of a state are the one at work and those that wait.  A step lets
each of them be or carries it on, and may begin a new one; it never brings back one that
has ended (`Transition.active_cases`).
-/

namespace MessageMachine

/-! ## Callers -/

namespace Callers

/-- Callers are the list of the executions that wait; what is kept at hand follows from it. -/
theorem ext_list {cs cs' : Callers} (h : cs.list = cs'.list) : cs = cs' := by
  obtain ⟨list, activations, depth, ha, hd⟩ := cs
  obtain ⟨list', activations', depth', ha', hd'⟩ := cs'
  subst h
  subst ha
  subst ha'
  subst hd
  subst hd'
  rfl

theorem list_of_pop? {cs cs' : Callers} {c : Caller} (h : cs.pop? = some (c, cs')) :
    cs.list = c :: cs'.list := by
  unfold pop? at h
  split at h
  · cases h
  · rename_i hl
    injection h with h
    injection h with hc hr
    rw [hl, hc, ← hr]
    split <;> rfl

theorem pop?_of_list {cs cs' : Callers} {c : Caller} (h : cs.list = c :: cs'.list) :
    cs.pop? = some (c, cs') := by
  cases pop : cs.pop? with
  | none =>
    unfold pop? at pop
    split at pop
    · rename_i hl
      rw [h] at hl
      cases hl
    · cases pop
  | some p =>
    obtain ⟨d, ds⟩ := p
    have hl := list_of_pop? pop
    rw [h] at hl
    injection hl with hd hds
    rw [hd, ext_list hds]

theorem pop?_push (c : Caller) (cs : Callers) : (cs.push c).pop? = some (c, cs) :=
  pop?_of_list (list_push c cs)

theorem list_of_pop?_none {cs : Callers} (h : cs.pop? = none) : cs.list = [] := by
  unfold pop? at h
  split at h
  · assumption
  · cases h

end Callers

namespace Machine

/-! ## Stretches of a run -/

/-- Some steps lead from `m` to `m'`, and through states that satisfy `P` only,
both ends included. -/
def Leads (env : Environment) (P : Machine → Prop) (m m' : Machine) : Prop :=
  ∃ n, (step env)^[n] m = m' ∧ ∀ k ≤ n, P ((step env)^[k] m)

namespace Leads

variable {env : Environment} {P Q : Machine → Prop} {m m' m'' : Machine}

theorem refl (h : P m) : Leads env P m m :=
  ⟨0, rfl, fun k hk => by rw [Nat.le_zero.mp hk]; exact h⟩

theorem trans (h : Leads env P m m') (h' : Leads env P m' m'') : Leads env P m m'' := by
  obtain ⟨n, rfl, hn⟩ := h
  obtain ⟨n', rfl, hn'⟩ := h'
  refine ⟨n' + n, Function.iterate_add_apply _ _ _ _, fun k hk => ?_⟩
  by_cases h : k ≤ n
  · exact hn k h
  · have later := hn' (k - n) (by omega)
    rw [← Function.iterate_add_apply, show k - n + n = k by omega] at later
    exact later

theorem single (h : P m) (h' : P (m.step env)) : Leads env P m (m.step env) := by
  refine ⟨1, rfl, fun k hk => ?_⟩
  rcases Nat.le_one_iff_eq_zero_or_eq_one.mp hk with rfl | rfl
  · exact h
  · exact h'

theorem mono (h : Leads env P m m') (sub : ∀ s, P s → Q s) : Leads env Q m m' := by
  obtain ⟨n, e, hn⟩ := h
  exact ⟨n, e, fun k hk => sub _ (hn k hk)⟩

theorem first (h : Leads env P m m') : P m := by
  obtain ⟨n, -, hn⟩ := h
  exact hn 0 (Nat.zero_le n)

theorem last (h : Leads env P m m') : P m' := by
  obtain ⟨n, rfl, hn⟩ := h
  exact hn n (Nat.le_refl n)

/-- What every step keeps holds at the end of a stretch if it holds at its beginning. -/
theorem keeps (h : Leads env P m m')
    (keep : ∀ s, s.control.isHalted = false → Q s → Q (s.step env)) (hm : Q m) : Q m' := by
  obtain ⟨n, rfl, -⟩ := h
  induction n generalizing m with
  | zero => exact hm
  | succ n ih =>
    rw [Function.iterate_succ_apply]
    cases halted : m.control.isHalted with
    | true =>
      rw [step_of_halted env halted]
      exact ih hm
    | false => exact ih (keep m halted hm)

theorem potential_le (h : Leads env P m m') : m'.potential env ≤ m.potential env :=
  h.keeps (Q := fun s => s.potential env ≤ m.potential env)
    (fun s hs le => Nat.le_of_lt (Nat.lt_of_lt_of_le (potential_step env s hs) le)) (Nat.le_refl _)

end Leads

end Machine

/-! ## Activity -/

/-- The execution at work, if there is one. -/
def Control.execution? : Control → Option Execution
  | .execute e | .abandon e _ => some e
  | _ => none

namespace Machine

/-- The executions at work or waiting, the innermost first. -/
def active (m : Machine) : List Execution :=
  m.control.execution?.toList ++ m.callers.list.map Caller.execution

theorem mem_active_of_work {m : Machine} {x : Execution} (h : m.control.execution? = some x) :
    x ∈ m.active :=
  List.mem_append_left _ (Option.mem_toList.mpr h)

theorem mem_active_of_waits {m : Machine} {c : Caller} (h : c ∈ m.callers.list) :
    c.execution ∈ m.active :=
  List.mem_append_right _ (List.mem_map_of_mem h)

/-- What holds of the execution at work and of those that wait. -/
theorem forall_active {m : Machine} {P : Execution → Prop}
    (work : ∀ x, m.control.execution? = some x → P x)
    (waits : ∀ c ∈ m.callers.list, P c.execution) : ∀ x ∈ m.active, P x := by
  intro x hx
  rcases List.mem_append.mp hx with hx | hx
  · exact work x (Option.mem_toList.mp hx)
  · obtain ⟨c, hc, rfl⟩ := List.mem_map.mp hx
    exact waits c hc

/-- The execution is one of `m`, or the same at a later time. -/
def Carries (m : Machine) (x : Execution) : Prop := ∃ y ∈ m.active, y.Continues x

/-- The execution is one that begins to work with the next step. -/
def Opens (m : Machine) (x : Execution) : Prop :=
  ∃ send start again cls handler frame started, m.control = .seek send start again ∧
    m.session.world.classes.findHandler start send.message = some (cls, handler) ∧
    x = .ofHandler send cls handler frame started

/-- An execution that has ended is not at work any more. -/
theorem execution?_leave (env : Environment) (m : Machine) (e : Execution)
    (result : Except Fault Ending) : (m.leave env e result).control.execution? = none := by
  rcases control_leave env m e result with ⟨r, x, h⟩ | ⟨r, h⟩ | ⟨send, start, h⟩
  all_goals
    rw [h]
    rfl

end Machine

/-- **Each active execution was active before, or begins to work.** -/
theorem Transition.active_cases {env : Environment} {m m' : Machine}
    (t : Transition env m m') : ∀ x ∈ m'.active, m.Carries x ∨ m.Opens x := by
  have waits : ∀ c ∈ m.callers.list, m.Carries c.execution ∨ m.Opens c.execution :=
    fun c hc => .inl ⟨c.execution, Machine.mem_active_of_waits hc, .refl _⟩
  -- the execution at work goes on
  have works {e x : Execution} (work : m.control.execution? = some e) (h : e.Continues x) :
      m.Carries x ∨ m.Opens x := .inl ⟨e, Machine.mem_active_of_work work, h⟩
  have follows {e : Execution} {x : Except Fault Next} {moment : Moment}
      (outcome : Action.statement (m.scope env (m.session.statements + 1)) (m.session.moment e) =
        (x, moment)) : e.Continues moment.execution :=
    Action.continues_statement outcome
  -- an innermost caller goes on
  have resumes {c : Caller} {callers : Callers} {x : Execution}
      (pop : m.callers.pop? = some (c, callers)) (h : c.execution.Continues x) :
      m.Carries x ∨ m.Opens x := by
    have mem : c ∈ m.callers.list := by
      rw [Callers.list_of_pop? pop]
      exact List.mem_cons_self
    exact .inl ⟨c.execution, Machine.mem_active_of_waits mem, h⟩
  have others {c : Caller} {callers : Callers} (pop : m.callers.pop? = some (c, callers)) :
      ∀ d ∈ callers.list, m.Carries d.execution ∨ m.Opens d.execution := by
    intro d hd
    refine waits d ?_
    rw [Callers.list_of_pop? pop]
    exact List.mem_cons_of_mem c hd
  cases t with
  | reject control | accept control | miss control | exhaust control | halt control =>
    exact Machine.forall_active (fun x hx => by cases hx) waits
  | begin control found =>
    refine Machine.forall_active (fun x hx => ?_) waits
    cases hx
    exact .inr ⟨_, _, _, _, _, _, _, control, found, rfl⟩
  | runOff control code | overrun control code =>
    refine Machine.forall_active (fun x hx => ?_) waits
    cases hx
    exact works (by rw [control]; rfl) (.refl _)
  | fail control code budget outcome | proceed control code budget outcome =>
    refine Machine.forall_active (fun x hx => ?_) waits
    cases hx
    exact works (by rw [control]; rfl) (follows outcome)
  | await control code budget outcome =>
    refine Machine.forall_active (fun x hx => by cases hx) fun c hc => ?_
    rw [Callers.list_push] at hc
    rcases List.mem_cons.mp hc with rfl | hc
    · exact works (by rw [control]; rfl) (follows outcome)
    · exact waits c hc
  | finish control =>
    refine Machine.forall_active (fun x hx => ?_) fun c hc => ?_
    · rw [Machine.execution?_leave] at hx
      cases hx
    · rw [Machine.callers_leave] at hc
      exact waits c hc
  | abandon control =>
    refine Machine.forall_active (fun x hx => ?_) fun c hc => ?_
    · rw [Machine.abandon, Machine.execution?_leave] at hx
      cases hx
    · rw [Machine.abandon, Machine.callers_leave] at hc
      exact waits c hc
  | resume control pop seen outcome | misfit control pop seen outcome =>
    refine Machine.forall_active (fun x hx => ?_) (others pop)
    cases hx
    exact resumes pop ((Action.Tame.assignIf _ _).of_run outcome).1.execution
  | abort control pop aborts =>
    refine Machine.forall_active (fun x hx => ?_) (others pop)
    cases hx
    exact resumes pop (.refl _)

/-- Whatever begins to work is a handler.  So where only handlers are active, that stays so. -/
theorem Transition.handlers {env : Environment} {m m' : Machine}
    (t : Transition env m m') (h : ∀ x ∈ m.active, x.role.isSome = true) :
    ∀ x ∈ m'.active, x.role.isSome = true := by
  intro x hx
  rcases t.active_cases x hx with ⟨y, hy, continues⟩ | ⟨_, _, _, _, _, _, _, -, -, rfl⟩
  · rw [continues.isSome_role]
    exact h y hy
  · rfl

/-! ## The answer to a send -/

namespace Machine

/-- A send is being served: the machine runs, and the execution at work, if there is one, is a
handler's. -/
structure Serving (m : Machine) : Prop where
  running : m.control.isHalted = false
  handler : ∀ x, m.control.execution? = some x → x.role.isSome = true

/-- A handler that has ended is followed by the rest of the send that it ran for. -/
theorem serving_leave (env : Environment) (m : Machine) {e : Execution}
    (role : e.role.isSome = true) (result : Except Fault Ending) :
    (m.leave env e result).Serving := by
  obtain ⟨h, role⟩ := Option.isSome_iff_exists.mp role
  constructor
  · rw [leave_handler env m role]
    show (h.followUp result).isHalted = false
    rcases h.followUp_cases result with ⟨f, -, e⟩ | ⟨_, v, -, e⟩ | ⟨parent, -, e⟩
    all_goals
      rw [e]
      rfl
  · intro x hx
    rw [execution?_leave] at hx
    cases hx

end Machine

namespace Transition

variable {env : Environment} {m m' : Machine}

/-- While a send is being served the same callers wait, or one more does. -/
theorem serving_cases (t : Transition env m m') (h : m.Serving)
    (unanswered : ∀ r, m.control ≠ .answer r) :
    m'.Serving ∧ (m'.callers = m.callers ∨
      ∃ c, c.execution.role.isSome = true ∧ m'.callers = m.callers.push c) := by
  have follows {e : Execution} {x : Except Fault Next} {moment : Moment}
      (control : m.control = .execute e)
      (outcome : Action.statement (m.scope env (m.session.statements + 1)) (m.session.moment e) =
        (x, moment)) : moment.execution.role.isSome = true := by
    rw [(Action.continues_statement outcome).isSome_role]
    exact h.handler e (by rw [control]; rfl)
  cases t with
  | reject control | accept control | miss control | exhaust control =>
    exact ⟨⟨rfl, fun x hx => by cases hx⟩, .inl rfl⟩
  | begin control found => exact ⟨⟨rfl, fun x hx => by cases hx; rfl⟩, .inl rfl⟩
  | runOff control | overrun control =>
    refine ⟨⟨rfl, fun x hx => ?_⟩, .inl rfl⟩
    cases hx
    exact h.handler _ (by rw [control]; rfl)
  | fail control _ _ outcome | proceed control _ _ outcome =>
    refine ⟨⟨rfl, fun x hx => ?_⟩, .inl rfl⟩
    cases hx
    exact follows control outcome
  | await control _ _ outcome =>
    exact ⟨⟨rfl, fun x hx => by cases hx⟩, .inr ⟨_, follows control outcome, rfl⟩⟩
  | finish control _ _ outcome =>
    exact ⟨Machine.serving_leave env _ (follows control outcome) _,
      .inl (Machine.callers_leave _ _ _ _)⟩
  | abandon control =>
    have role := h.handler _ (by rw [control]; rfl)
    exact ⟨Machine.serving_leave env _ role _, .inl (Machine.callers_leave _ _ _ _)⟩
  | halt control | resume control | misfit control | abort control =>
    exact absurd control (unanswered _)

/-- An answer goes to the innermost caller. -/
theorem serving_of_answer {r : Except Fault Value} {c : Caller} {callers : Callers}
    (t : Transition env m m') (control : m.control = .answer r)
    (pop : m.callers.pop? = some (c, callers)) (role : c.execution.role.isSome = true) :
    m'.Serving ∧ m'.callers = callers := by
  cases t with
  | halt control' top =>
    rw [pop] at top
    cases top
  | resume control' pop' seen outcome | misfit control' pop' seen outcome =>
    rw [pop] at pop'
    cases pop'
    refine ⟨⟨rfl, fun x hx => ?_⟩, rfl⟩
    cases hx
    rw [((Action.Tame.assignIf _ _).of_run outcome).1.execution.isSome_role]
    exact role
  | abort control' pop' =>
    rw [pop] at pop'
    cases pop'
    exact ⟨⟨rfl, fun x hx => by cases hx; exact role⟩, rfl⟩
  | reject control' | accept control' | begin control' | miss control' | exhaust control'
  | runOff control' | overrun control' | fail control' | proceed control' | await control'
  | finish control' | abandon control' =>
    rw [control] at control'
    cases control'

end Transition

namespace Machine

variable {env : Environment}

/-- **Every send is answered.**  A send that is being served comes to its answer, with the same
callers waiting as now, and with these callers waiting all the time in between. -/
theorem exists_answer (m : Machine) (h : m.Serving) :
    ∃ m' r, m'.control = .answer r ∧ m'.callers = m.callers ∧
      Leads env (fun s => m.callers.list <:+ s.callers.list) m m' := by
  induction p : m.potential env using Nat.strongRecOn generalizing m with
  | _ n ih =>
    have here : m.callers.list <:+ m.callers.list := List.suffix_refl _
    by_cases answered : ∃ r, m.control = .answer r
    · obtain ⟨r, control⟩ := answered
      exact ⟨m, r, control, rfl, .refl here⟩
    have t := transition_step env m h.running
    obtain ⟨serving, callers | ⟨c, role, callers⟩⟩ :=
      t.serving_cases h fun r control => answered ⟨r, control⟩
    · -- the same callers wait
      obtain ⟨m', r, control, callers', leads⟩ :=
        ih _ (p ▸ potential_step env m h.running) (m.step env) serving rfl
      rw [callers] at callers' leads
      exact ⟨m', r, control, callers', (Leads.single here leads.first).trans leads⟩
    · -- one more caller waits: it gets its answer first, and goes on
      obtain ⟨m₁, r₁, control₁, callers₁, leads₁⟩ :=
        ih _ (p ▸ potential_step env m h.running) (m.step env) serving rfl
      have within : ∀ s : Machine, (m.step env).callers.list <:+ s.callers.list →
          m.callers.list <:+ s.callers.list := by
        intro s hs
        rw [callers, Callers.list_push] at hs
        exact (List.suffix_cons c m.callers.list).trans hs
      have running₁ : m₁.control.isHalted = false := by
        rw [control₁]
        rfl
      have pop₁ : m₁.callers.pop? = some (c, m.callers) := by
        rw [callers₁, callers]
        exact Callers.pop?_push c m.callers
      obtain ⟨serving₂, callers₂⟩ :=
        (transition_step env m₁ running₁).serving_of_answer control₁ pop₁ role
      have lower : (m₁.step env).potential env < n :=
        Nat.lt_trans (Nat.lt_of_lt_of_le (potential_step env m₁ running₁) leads₁.potential_le)
          (p ▸ potential_step env m h.running)
      obtain ⟨m₂, r₂, control₂, callers₂', leads₂⟩ := ih _ lower (m₁.step env) serving₂ rfl
      rw [callers₂] at callers₂' leads₂
      have leads₁ := leads₁.mono within
      exact ⟨m₂, r₂, control₂, callers₂', (Leads.single here leads₁.first).trans
        (leads₁.trans ((Leads.single leads₁.last leads₂.first).trans leads₂))⟩

end Machine

end MessageMachine
