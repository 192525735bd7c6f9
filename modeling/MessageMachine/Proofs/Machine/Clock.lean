import MessageMachine.Proofs.Machine.Trace

/-!
# The clock of a run

Scripts neither set the clock nor move it on.  A run reads it, when handlers begin and, if times are
kept, when they end.  So what the clock shows at each reading is known before the run, and the run
only says how many readings there are (`Machine.readOn_run`).
-/

namespace MessageMachine

/-- What the clock shows at its `n`-th reading, if it is not set or moved on before. -/
def Clock.shows (c : Clock) (n : Nat) : UInt64 := c.base + c.course n

/-- The same clock, which may have been read since. -/
structure Clock.ReadOn (c c' : Clock) : Prop where
  shows : c'.shows = c.shows
  readings : c.readings ≤ c'.readings

namespace Clock.ReadOn

variable {c c' c'' : Clock}

theorem refl (c : Clock) : c.ReadOn c := ⟨rfl, Nat.le_refl _⟩

theorem trans (h : c.ReadOn c') (h' : c'.ReadOn c'') : c.ReadOn c'' :=
  ⟨h'.shows.trans h.shows, Nat.le_trans h.readings h'.readings⟩

theorem of_eq (h : c' = c) : c.ReadOn c' := h ▸ refl c

theorem read (c : Clock) : c.ReadOn c.read.2 := ⟨rfl, Nat.le_succ _⟩

end Clock.ReadOn

namespace Machine

theorem clock_report (s : Session) (stack : List Activation) (f : Fault) :
    (s.report stack f).world.clock = s.world.clock := by
  unfold Session.report
  split
  · rfl
  · dsimp only
    split <;> rfl

theorem clock_forgive (s : Session) (c : Caller) (r : Except Fault Value) :
    (s.forgive c r).world.clock = s.world.clock := by
  unfold Session.forgive
  split
  · rfl
  · split <;> rfl

theorem readOn_leave (env : Environment) (m : Machine) (e : Execution)
    (result : Except Fault Ending) :
    m.session.world.clock.ReadOn (m.leave env e result).session.world.clock := by
  cases role : e.role with
  | none =>
    rw [leave_alone env m role]
    exact .refl _
  | some h =>
    rw [leave_handler env m role]
    show m.session.world.clock.ReadOn (keepTime env m.session h).world.clock
    unfold keepTime
    split
    · exact .read _
    · exact .refl _

end Machine

/-- A step does not more to the clock than to read it. -/
theorem Transition.readOn {env : Environment} (hn : env.natives.IsStandard) {m m' : Machine}
    (t : Transition env m m') : m.session.world.clock.ReadOn m'.session.world.clock := by
  have executed {e : Execution} {x : Except Fault Next} {moment : Moment}
      (outcome : Action.statement (m.scope env (m.session.statements + 1)) (m.session.moment e) =
        (x, moment)) : moment.world.clock = m.session.world.clock :=
    ((Action.Tame.statement _ hn).of_run outcome).1.clock
  have resumed {r : Except Fault Value} {c : Caller} {value : Value} {x : Except Fault Unit}
      {moment : Moment} (outcome : Action.assignIf c.destination value
        ((m.session.forgive c r).moment c.execution) = (x, moment)) :
      moment.world.clock = m.session.world.clock :=
    ((Action.Tame.assignIf _ _).of_run outcome).1.clock.trans (Machine.clock_forgive _ c r)
  cases t with
  | reject | miss => exact .of_eq (Machine.clock_report _ _ _)
  | accept | exhaust | halt | runOff | overrun | abort => exact .refl _
  | begin => exact .read _
  | fail _ _ _ outcome | proceed _ _ _ outcome | await _ _ _ outcome =>
    exact .of_eq (executed outcome)
  | @finish e ending moment _ _ _ outcome =>
    have left := Machine.readOn_leave env
      { m.counted with session := m.counted.session.after moment } moment.execution (.ok ending)
    exact (Clock.ReadOn.of_eq (executed outcome)).trans left
  | @abandon e f =>
    have left := Machine.readOn_leave env
      { m with session := m.session.report (e.stackOn m.callers.activations) f } e (.error f)
    exact (Clock.ReadOn.of_eq (Machine.clock_report _ _ _)).trans left
  | resume _ _ _ outcome | misfit _ _ _ outcome => exact .of_eq (resumed outcome)

/-- A run does not more to the clock than to read it. -/
theorem Machine.readOn_run {env : Environment} (hn : env.natives.IsStandard) (m : Machine) :
    m.session.world.clock.ReadOn (m.run env).session.world.clock := by
  induction m using run_induction env with
  | halted m hm =>
    rw [run_of_halted env hm]
    exact .refl _
  | running m hm ih =>
    rw [← run_step]
    exact ((transition_step env m hm).readOn hn).trans ih

end MessageMachine
