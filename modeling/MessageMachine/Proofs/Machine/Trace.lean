import Mathlib.Logic.Function.Iterate
import MessageMachine.Proofs.Machine.Transition
import MessageMachine.Engine

/-!
# Traces

The trace of a state is the list of states that a run from it goes through, the first and the last
included.  What a run did can be read off its trace: how many statements it executed, which handlers
it ran, at which state something was first the case.

`run_induction` is the induction that all statements about whole runs go by.  It is on the
potential of the state, so it needs no bound on the number of steps; `exists_iterate_eq_run` gives
that bound afterwards.

A top-level send is the run from `Engine.start`, and `Engine.states` is its trace.
-/

namespace MessageMachine

namespace Machine

/-! ## What a step does -/

/-- Is a statement executed by the next step? -/
def executes (env : Environment) (m : Machine) : Bool :=
  match m.control with
  | .execute e => !e.cursor.atEnd && decide (m.session.statements < env.settings.maxStatements)
  | _ => false

/-- Does a handler begin to work with the next step? -/
def begins (m : Machine) : Bool :=
  match m.control with
  | .seek send start _ =>
    (m.session.world.classes.findHandler start send.message).isSome
  | _ => false

theorem executes_of_execute {env : Environment} {m : Machine} {e : Execution}
    (control : m.control = .execute e) (code : e.cursor.atEnd = false)
    (budget : m.session.statements < env.settings.maxStatements) : m.executes env = true := by
  rw [executes, control]
  simp only [code, budget, decide_true, Bool.not_false, Bool.and_self]

theorem executes_of_atEnd (env : Environment) {m : Machine} {e : Execution}
    (control : m.control = .execute e) (code : e.cursor.atEnd = true) : m.executes env = false := by
  rw [executes, control]
  simp only [code, Bool.not_true, Bool.false_and]

theorem executes_of_overrun {env : Environment} {m : Machine} {e : Execution}
    (control : m.control = .execute e)
    (budget : env.settings.maxStatements ≤ m.session.statements) : m.executes env = false := by
  rw [executes, control]
  simp only [Nat.not_lt.mpr budget, decide_false, Bool.and_false]

theorem begins_of_seek {m : Machine} {send : Send} {start : ClassId} {again : Bool}
    (control : m.control = .seek send start again) :
    m.begins = (m.session.world.classes.findHandler start send.message).isSome := by
  rw [begins, control]

/-! ## Runs -/

variable (env : Environment)

@[simp] theorem step_of_halted {m : Machine} (h : m.control.isHalted = true) : m.step env = m := by
  unfold step
  cases control : m.control with
  | halted r e => rfl
  | _ =>
    rw [control] at h
    cases h

theorem run_of_halted {m : Machine} (h : m.control.isHalted = true) : m.run env = m := by
  unfold run runUntil
  rw [dif_neg (by rw [h]; exact Bool.false_ne_true.symm)]

theorem run_of_running {m : Machine} (h : m.control.isHalted = false) :
    m.run env = (m.step env).run env := by
  rw [run, runUntil, dif_pos h, if_neg Bool.false_ne_true, run]

/-- A run goes on from the next state. -/
theorem run_step (m : Machine) : (m.step env).run env = m.run env := by
  cases h : m.control.isHalted with
  | true => rw [step_of_halted env h]
  | false => exact (run_of_running env h).symm

/-- **Induction along a run.**  What holds of halted states, and of a state whenever it holds of the
next one, holds of every state. -/
@[elab_as_elim]
theorem run_induction {motive : Machine → Prop}
    (halted : ∀ m, m.control.isHalted = true → motive m)
    (running : ∀ m, m.control.isHalted = false → motive (m.step env) → motive m) (m : Machine) :
    motive m := by
  induction h : m.potential env using Nat.strongRecOn generalizing m with
  | _ n ih =>
    cases hm : m.control.isHalted with
    | true => exact halted m hm
    | false =>
      have hlt : (m.step env).potential env < n := h ▸ potential_step env m hm
      exact running m hm (ih _ hlt (m.step env) rfl)

/-- The states that a run goes through, the first and the last included. -/
def trace (m : Machine) : List Machine :=
  if _h : m.control.isHalted = false then m :: trace (m.step env) else [m]
termination_by m.potential env
decreasing_by exact potential_step env m _h

theorem trace_of_halted {m : Machine} (h : m.control.isHalted = true) : m.trace env = [m] := by
  unfold trace
  rw [dif_neg (by rw [h]; exact Bool.false_ne_true.symm)]

theorem trace_of_running {m : Machine} (h : m.control.isHalted = false) :
    m.trace env = m :: (m.step env).trace env := by
  rw [trace, dif_pos h]

theorem mem_trace_self (m : Machine) : m ∈ m.trace env := by
  cases h : m.control.isHalted with
  | true => rw [trace_of_halted env h]; exact List.mem_singleton_self m
  | false => rw [trace_of_running env h]; exact List.mem_cons_self

theorem mem_trace_of_step {m m' : Machine} (h : m.control.isHalted = false)
    (h' : m' ∈ (m.step env).trace env) : m' ∈ m.trace env := by
  rw [trace_of_running env h]
  exact List.mem_cons_of_mem m h'

/-- The states that any number of steps lead to are in the trace. -/
theorem iterate_mem_trace (n : Nat) (m : Machine) : (step env)^[n] m ∈ m.trace env := by
  induction n generalizing m with
  | zero => exact mem_trace_self env m
  | succ n ih =>
    rw [Function.iterate_succ_apply]
    cases hm : m.control.isHalted with
    | true =>
      rw [step_of_halted env hm]
      exact ih m
    | false => exact mem_trace_of_step env hm (ih (m.step env))

/-- What holds of a state and is kept by every step holds all along the trace. -/
theorem trace_invariant {P : Machine → Prop}
    (keep : ∀ m, m.control.isHalted = false → P m → P (m.step env)) (m : Machine) (h : P m) :
    ∀ m' ∈ m.trace env, P m' := by
  induction m using run_induction env with
  | halted m hm =>
    intro m' hm'
    rw [trace_of_halted env hm] at hm'
    rw [List.mem_singleton.mp hm']
    exact h
  | running m hm ih =>
    intro m' hm'
    rw [trace_of_running env hm] at hm'
    rcases List.mem_cons.mp hm' with rfl | hm'
    · exact h
    · exact ih (keep m hm h) m' hm'

/-- The run ends in the last state of the trace. -/
theorem getLast?_trace (m : Machine) : (m.trace env).getLast? = some (m.run env) := by
  induction m using run_induction env with
  | halted m hm => rw [trace_of_halted env hm, run_of_halted env hm]; rfl
  | running m hm ih =>
    rw [trace_of_running env hm, List.getLast?_cons, ih, ← run_step env m]
    rfl

theorem run_mem_trace (m : Machine) : m.run env ∈ m.trace env :=
  List.mem_of_getLast? (getLast?_trace env m)

/-- **A run is over after as many steps as its first state has potential.** -/
theorem exists_iterate_eq_run (m : Machine) :
    ∃ n ≤ m.potential env, (step env)^[n] m = m.run env := by
  induction m using run_induction env with
  | halted m hm => exact ⟨0, Nat.zero_le _, (run_of_halted env hm).symm⟩
  | running m hm ih =>
    obtain ⟨n, hn, e⟩ := ih
    refine ⟨n + 1, Nat.lt_of_le_of_lt hn (potential_step env m hm), ?_⟩
    rw [Function.iterate_succ_apply, e, run_step]

/-- What holds of the states that so many steps lead through, the last of which has halted, holds
all along the trace. -/
theorem forall_mem_trace {P : Machine → Prop} (n : Nat) (m : Machine)
    (halted : ((step env)^[n] m).control.isHalted = true)
    (h : ∀ k ≤ n, P ((step env)^[k] m)) : ∀ m' ∈ m.trace env, P m' := by
  induction n generalizing m with
  | zero =>
    have halted : m.control.isHalted = true := halted
    intro m' hm'
    rw [trace_of_halted env halted] at hm'
    rw [List.mem_singleton.mp hm']
    exact h 0 (Nat.le_refl 0)
  | succ n ih =>
    intro m' hm'
    cases hm : m.control.isHalted with
    | true =>
      rw [trace_of_halted env hm] at hm'
      rw [List.mem_singleton.mp hm']
      exact h 0 (Nat.zero_le _)
    | false =>
      rw [trace_of_running env hm] at hm'
      rcases List.mem_cons.mp hm' with rfl | hm'
      · exact h 0 (Nat.zero_le _)
      · exact ih (m.step env) halted (fun k hk => h (k + 1) (Nat.succ_le_succ hk)) m' hm'

/-- A run ends in the halted state that some number of steps leads to. -/
theorem run_eq_iterate (n : Nat) (m : Machine) (h : ((step env)^[n] m).control.isHalted = true) :
    m.run env = (step env)^[n] m := by
  induction n generalizing m with
  | zero => exact run_of_halted env h
  | succ n ih =>
    rw [Function.iterate_succ_apply] at h ⊢
    rw [← run_step]
    exact ih (m.step env) h

end Machine

/-! ## Top-level sends -/

namespace Engine

/-- The engine with other objects. -/
def withObjects (e : Engine) (objects : Population) : Engine :=
  { e with world := { e.world with objects } }

/-- The state in which the run of a top-level send begins. -/
def start (e : Engine) (send : Send) : Machine := .ofSend e.beginSend.2 send

/-- The states that a top-level send goes through. -/
def states (e : Engine) (send : Send) : List Machine := (e.start send).trace e.environment

theorem send_eq (e : Engine) (send : Send) :
    e.send send =
      (((e.start send).run e.environment).result,
        e.endSend send e.beginSend.1 ((e.start send).run e.environment).session) :=
  rfl

/-- An engine with one object, whose only handler is for message 1 and has the given body. -/
def ofBody (settings : Settings) (properties : List Property) (body : Array UInt8) : Engine :=
  (ofClass settings
    { id := ⟨1⟩
      name := "Single"
      properties
      handlers := (Handler.ofBody ⟨1⟩ "Run" body).toOption.toList }).2

end Engine

end MessageMachine
