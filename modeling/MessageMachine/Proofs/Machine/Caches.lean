import MessageMachine.Proofs.Caches
import MessageMachine.Proofs.Machine.Twins

/-!
# Runs and the class cache

A run goes the same way whatever the caches of objects hold.  Two machines that differ in caches
alone do so after every step (`Machine.Recached.step`), and so they halt alike.  Everything else
about their states is the same, down to statistics and journal, so the natives may look at all that
a call shows them; they only have to ignore caches themselves.  In short, worlds that differ in
caches alone are twins for all receivers (`World.Recached.twinship`).
-/

namespace MessageMachine

/-- The sessions differ in caches alone. -/
structure Session.Recached (s s' : Session) : Prop where
  world : s.world.Recached s'.world
  statistics : s.statistics = s'.statistics
  statements : s.statements = s'.statements
  nativeCalls : s.nativeCalls = s'.nativeCalls
  unwinding : s.unwinding = s'.unwinding

/-- The machines differ in caches alone. -/
structure Machine.Recached (m m' : Machine) : Prop where
  session : m.session.Recached m'.session
  callers : m.callers = m'.callers
  control : m.control = m'.control

/-- **Nobody looks at caches**, if the natives do not. -/
theorem World.Recached.twinship {natives : NativeTable} (hn : natives.IgnoresCaches) :
    World.Twinship World.Recached (fun _ => True) natives where
  read h receiver _ frame kind data := h.read receiver frame kind data
  write h receiver _ frame place index value := h.write receiver frame place.kind index value
  native slot c w w' h := hn _ _ slot c w w' h
  classOf h id _ := by
    rcases Population.get?_cases h.objects id with
      ⟨missing, missing'⟩ | ⟨o, o', found, found', same⟩
    · rw [missing, missing']
    · rw [found, found']
      exact congrArg some (Object.classId_of_dropCache same)
  classes h := h.classes
  clock h := h.clock
  withClock h := h.withClock
  log h := h.log

namespace Machine.Recached

variable {m m' : Machine}

theorem result (h : m.Recached m') : m.result = m'.result := by
  unfold Machine.result
  rw [h.control]

theorem twins (h : m.Recached m') : m.Twins World.Recached m' :=
  ⟨⟨h.session.world, h.session.statistics, h.session.statements, h.session.nativeCalls,
    h.session.unwinding⟩, h.callers, h.control⟩

theorem of_twins (h : m.Twins World.Recached m') : m.Recached m' :=
  ⟨⟨h.session.world, h.session.statistics, h.session.statements, h.session.nativeCalls,
    h.session.unwinding⟩, h.callers, h.control⟩

variable {env : Environment} (hn : env.natives.IgnoresCaches)

include hn

/-- **A step does not look at caches.** -/
theorem step (h : m.Recached m') : (m.step env).Recached (m'.step env) :=
  of_twins (h.twins.step (World.Recached.twinship hn) ⟨fun _ _ => trivial, fun _ _ => trivial⟩)

/-- **A run does not look at caches.** -/
theorem run (h : m.Recached m') : (m.run env).Recached (m'.run env) :=
  of_twins (h.twins.run (World.Recached.twinship hn) fun _ _ =>
    ⟨fun _ _ => trivial, fun _ _ => trivial⟩).2

end Machine.Recached

end MessageMachine
