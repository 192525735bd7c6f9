import MessageMachine.Proofs.Census
import MessageMachine.Proofs.Machine.Trace
import MessageMachine.Proofs.Statement.Continuity

/-!
# What a run does to the census

Of itself running code neither creates nor deletes.  All that may show in the census is what the
native functions do, which have the objects at their disposal.  So a relation of populations
that holds wherever the census is the same, and that every native function keeps, is kept by a
whole run (`Machine.objects_run`).

There are two such relations to speak of.  With the standard functions the census stays the
same.  With functions that delete objects, and otherwise change them as far as their keeper may,
the population ages.
-/

namespace MessageMachine

variable {R : Population → Population → Prop}

/-- Whatever a native function does to the objects is within `R`. -/
def Native.ActsWithin (R : Population → Population → Prop) (n : Native) : Prop :=
  ∀ (c : Call) (w : World), R w.objects (n.run c w).2.objects

/-- All functions of the table act within `R`. -/
def NativeTable.ActsWithin (R : Population → Population → Prop) (t : NativeTable) : Prop :=
  ∀ index n, t.slot index = some n → n.ActsWithin R

theorem NativeTable.ActsWithin.mono {R' : Population → Population → Prop} {t : NativeTable}
    (h : t.ActsWithin R) (sub : ∀ p p', R p p' → R' p p') : t.ActsWithin R' :=
  fun index n slot c w => sub _ _ (h index n slot c w)

/-- The standard functions neither create nor delete. -/
theorem NativeTable.IsStandard.actsWithin {t : NativeTable} (h : t.IsStandard) :
    t.ActsWithin Population.SameCensus := fun index n slot c w =>
  ((h index n slot).run_spec c w fun _ => True).1.objects.census_eq

variable [Std.Refl R] [IsTrans Population R] (census : ∀ p p', p.SameCensus p' → R p p')

local instance : Std.Refl fun m m' : Moment => R m.world.objects m'.world.objects :=
  ⟨fun m => refl_of R m.world.objects⟩

local instance : IsTrans Moment fun m m' => R m.world.objects m'.world.objects :=
  ⟨fun _ _ _ h h' => trans_of R h h'⟩

include census

/-- A statement acts within what its native functions act within. -/
theorem Action.objects_statement (scope : Scope)
    (hn : scope.environment.natives.ActsWithin R) :
    Within (fun m m' : Moment => R m.world.objects m'.world.objects) (fun _ => True)
      (Action.statement scope) :=
  within_statement (fun _ _ h => census _ _ h.world.objects.census_eq) scope
    fun index native slot positional named m => by
      obtain ⟨c, m₁, rfl, run⟩ := invoke_run scope index native positional named m
      rw [run]
      exact ⟨hn index native slot c (m.world.log (.nativeCall native.name index)),
        fun _ _ => trivial⟩

/-- A step acts within what the native functions act within. -/
theorem Transition.objects {env : Environment} (hn : env.natives.ActsWithin R) {m m' : Machine}
    (t : Transition env m m') : R m.session.world.objects m'.session.world.objects := by
  have idle {s s' : Session} (h : s.Idle s') : R s.world.objects s'.world.objects :=
    census _ _ (congrArg Population.census h.objects)
  have statement {e : Execution} {x : Except Fault Next} {moment : Moment}
      (outcome : Action.statement (m.scope env (m.session.statements + 1)) (m.session.moment e) =
        (x, moment)) : R m.session.world.objects moment.world.objects :=
    ((Action.objects_statement census (m.scope env _) hn).of_run outcome).1
  have answer {r : Except Fault Value} {c : Caller} {value : Value} {x : Except Fault Unit}
      {moment : Moment}
      (outcome : Action.assignIf c.destination value ((m.session.forgive c r).moment c.execution) =
        (x, moment)) : R m.session.world.objects moment.world.objects :=
    trans_of R (idle (Session.Idle.forgive m.session c r))
      (census _ _ ((Action.Tame.assignIf _ _).of_run outcome).1.world.objects.census_eq)
  cases t with
  | reject | miss => exact idle (Machine.idle_refuse m _)
  | accept | begin | exhaust | runOff | overrun | halt | abort => exact refl_of R _
  | fail _ _ _ outcome | proceed _ _ _ outcome | await _ _ _ outcome => exact statement outcome
  | @finish e ending moment _ _ _ outcome =>
    have left := Machine.idle_leave env { m.counted with session := m.counted.session.after moment }
      moment.execution (.ok ending)
    exact trans_of R (statement outcome) (idle left)
  | abandon => exact idle (Machine.idle_abandon env m _ _)
  | resume _ _ _ outcome | misfit _ _ _ outcome => exact answer outcome

/-- **A run acts within what the native functions act within.** -/
theorem Machine.objects_run (env : Environment) (hn : env.natives.ActsWithin R) (m : Machine) :
    R m.session.world.objects (m.run env).session.world.objects := by
  induction m using run_induction env with
  | halted m hm =>
    rw [run_of_halted env hm]
    exact refl_of R _
  | running m hm ih =>
    rw [run_step] at ih
    exact trans_of R ((m.transition_step env hm).objects census hn) ih

end MessageMachine
