import MessageMachine.Proofs.Machine.Returning

/-!
# The handlers of a send

A send that is let through runs the handlers on the superclass chain of its receiver's class in
turn: the one of the most derived class first, and the next one only if it hands over.  Each
begins on the same object, in a new frame bound from the arguments of the send; and in between the
machine only searches.

That is `Machine.InTurn`, for a list of classes with their handlers.  `Machine.dispatch_in_turn`
says that the list is that of the definers on the chain (`Directory.definers`), and what the answer
is.  The handlers may do what they like in the meantime, and so may the native functions they call,
as long as classes are neither inserted nor removed; the search looks at nothing else.
-/

namespace MessageMachine

/-- A step lets all classes stand, if the native functions do. -/
theorem Transition.sameOutline {env : Environment} (hn : env.natives.KeepsClasses) {m m' : Machine}
    (t : Transition env m m') :
    m.session.world.classes.SameOutline m'.session.world.classes := by
  have statement {e : Execution} {x : Except Fault Next} {moment : Moment}
      (outcome : Action.statement (m.scope env (m.session.statements + 1)) (m.session.moment e) =
        (x, moment)) : m.session.world.classes.SameOutline moment.world.classes :=
    ((Action.keepsClasses_statement (m.scope env _) hn).of_run outcome).1
  have answer {r : Except Fault Value} {c : Caller} {value : Value} {x : Except Fault Unit}
      {moment : Moment}
      (outcome : Action.assignIf c.destination value ((m.session.forgive c r).moment c.execution) =
        (x, moment)) : m.session.world.classes.SameOutline moment.world.classes :=
    .of_eq ((((Action.Tame.assignIf _ _).of_run outcome).1.world.classes).trans
      (Session.Idle.forgive m.session c r).classes)
  cases t with
  | reject | miss => exact .of_eq (Machine.idle_refuse m _).classes
  | accept | begin | exhaust | runOff | overrun | halt | abort => exact .refl _
  | fail _ _ _ outcome | proceed _ _ _ outcome | await _ _ _ outcome => exact statement outcome
  | @finish e ending moment _ _ _ outcome =>
    have idle := Machine.idle_leave env { m.counted with session := m.counted.session.after moment }
      moment.execution (.ok ending)
    exact (statement outcome).trans (.of_eq idle.classes)
  | abandon => exact .of_eq (Machine.idle_abandon env m _ _).classes
  | resume _ _ _ outcome | misfit _ _ _ outcome => exact answer outcome

namespace Machine

/-- No code is at work above the callers `base`. -/
structure Idles (base : Callers) (m : Machine) : Prop where
  callers : m.callers = base
  idle : m.control.execution? = none

/-- From `m` the handlers run for the send in turn, as long as they hand over, until the answer is
there at `answered`. -/
inductive InTurn (env : Environment) (send : Send) (base : Callers) :
    (m : Machine) → List (Class × Handler) → Except Fault Value → (answered : Machine) → Prop where
  /-- No handler is left, and the answer is nil. -/
  | exhausted {m answered : Machine} (idles : Leads env (Idles base) m answered)
      (answer : answered.control = .answer (.ok .nil)) :
      InTurn env send base m [] (.ok .nil) answered
  /-- A handler runs and does not hand over.  Its result is the answer, and no
  other handler runs. -/
  | stops {m sought ended : Machine} {cls : Class} {handler : Handler}
      {others : List (Class × Handler)} {result : Except Fault Value}
      (idles : Leads env (Idles base) m sought)
      (begins : sought.step env = sought.begin send cls handler)
      (completes : (sought.begin send cls handler).Completes env ended (result.map .value))
      (answer : (ended.step env).control = .answer result) :
      InTurn env send base m ((cls, handler) :: others) result (ended.step env)
  /-- A handler runs and hands over to the others. -/
  | handsOver {m sought ended answered : Machine} {cls : Class} {handler : Handler}
      {others : List (Class × Handler)} {result : Except Fault Value}
      (idles : Leads env (Idles base) m sought)
      (begins : sought.step env = sought.begin send cls handler)
      (completes : (sought.begin send cls handler).Completes env ended (.ok .handOver))
      (rest : InTurn env send base (ended.step env) others result answered) :
      InTurn env send base m ((cls, handler) :: others) result answered

namespace InTurn

variable {env : Environment} {send : Send} {base : Callers} {m answered : Machine}
  {handlers : List (Class × Handler)} {result : Except Fault Value}

/-- Idling before the first handler makes no difference. -/
theorem of_idles {m' : Machine} (idles : Leads env (Idles base) m m')
    (h : InTurn env send base m' handlers result answered) :
    InTurn env send base m handlers result answered := by
  cases h with
  | exhausted idles' answer => exact .exhausted (idles.trans idles') answer
  | stops idles' begins completes answer =>
    exact .stops (idles.trans idles') begins completes answer
  | handsOver idles' begins completes rest =>
    exact .handsOver (idles.trans idles') begins completes rest

/-- At the end the answer is there, with the same callers waiting. -/
theorem answer (h : InTurn env send base m handlers result answered) :
    answered.control = .answer result ∧ answered.callers = base := by
  induction h with
  | exhausted idles answer => exact ⟨answer, idles.last.callers⟩
  | stops idles begins completes answer =>
    exact ⟨answer, completes.ends.step.1.trans (completes.callers.trans idles.last.callers)⟩
  | handsOver _ _ _ _ ih => exact ih

end InTurn

/-! ## The search -/

section

variable (env : Environment) {m : Machine} {send : Send} {start : ClassId} {again : Bool}
  (control : m.control = .seek send start again)

include control

/-- Only the outline of a class matters to the handler that begins. -/
theorem step_of_found {d : Directory} (outline : d.SameOutline m.session.world.classes)
    {cls : Class} {handler : Handler}
    (found : d.findHandler start send.message = some (cls, handler)) :
    m.step env = m.begin send cls handler := by
  obtain ⟨cls', found', same⟩ := outline.findHandler_of_some found
  unfold step
  rw [control]
  dsimp only
  rw [seek, found']
  dsimp only [begin, Execution.ofHandler]
  rw [Class.id_of_outline same, Class.parent_of_outline same]

theorem step_of_missing {d : Directory} (outline : d.SameOutline m.session.world.classes)
    (missing : d.findHandler start send.message = none) :
    m.step env =
      if again then { m with control := .answer (.ok .nil) }
      else m.refuse (.unknownMessage start send.message) := by
  unfold step
  rw [control]
  dsimp only
  rw [seek, outline.findHandler_of_none missing]

end

/-! ## The turns -/

/-- What follows when a handler has handed over from a class with the given superclass. -/
def handedOver (send : Send) : Option ClassId → Control
  | some parent => .seek send parent true
  | none => .answer (.ok .nil)

section

variable {env : Environment} (hn : env.natives.KeepsClasses)

include hn

/-- A handler that begins takes its turn, if the others can take theirs after it. -/
theorem exists_inTurn_of_begins {send : Send} {cls : Class} {handler : Handler}
    {others : List (Class × Handler)} {m : Machine} (idle : m.control.execution? = none)
    (begins : m.step env = m.begin send cls handler)
    (rest : ∀ m' : Machine, m'.callers = m.callers →
      m.session.world.classes.SameOutline m'.session.world.classes →
      m'.control = handedOver send cls.parent →
      ∃ result answered, InTurn env send m.callers m' others result answered) :
    ∃ result answered, InTurn env send m.callers m ((cls, handler) :: others) result answered := by
  have here : Idles m.callers m := ⟨rfl, idle⟩
  obtain ⟨ended, r, completes⟩ := exists_completes (m := m.begin send cls handler) env rfl
  have follows := completes.followUp rfl rfl
  match r with
  | .error f => exact ⟨_, _, .stops (.refl here) begins completes follows⟩
  | .ok (.value v) => exact ⟨_, _, .stops (.refl here) begins completes follows⟩
  | .ok .handOver =>
    have callers : (ended.step env).callers = m.callers :=
      completes.ends.step.1.trans completes.callers
    have step (s : Machine) (running : s.control.isHalted = false)
        (kept : m.session.world.classes.SameOutline s.session.world.classes) :
        m.session.world.classes.SameOutline (s.step env).session.world.classes :=
      kept.trans ((transition_step env s running).sameOutline hn)
    have outline := step ended completes.ends.running (completes.leads.keeps step (.refl _))
    obtain ⟨result, answered, rest⟩ := rest _ callers outline follows
    exact ⟨result, answered, .handsOver (.refl here) begins completes rest⟩

/-- **When a handler has handed over, the definers above it run in turn.** -/
theorem exists_inTurn_of_handedOver {d : Directory} {m : Machine} {send : Send}
    {start : Option ClassId} {cs : List Class} (control : m.control = handedOver send start)
    (chain : d.Chain start cs) (short : cs.length ≤ Limits.classChain)
    (outline : d.SameOutline m.session.world.classes) :
    ∃ result answered,
      InTurn env send m.callers m (Directory.definers send.message cs) result answered := by
  generalize definers : Directory.definers send.message cs = handlers
  induction handlers generalizing m start cs with
  | nil =>
    cases start with
    | none => exact ⟨_, _, .exhausted (.refl ⟨rfl, by rw [control]; rfl⟩) control⟩
    | some start =>
      have missing := Directory.findHandler_eq_head? send.message chain short
      rw [definers] at missing
      have next := step_of_missing env control outline missing
      refine ⟨_, _, .exhausted (.single ⟨rfl, by rw [control]; rfl⟩ ⟨?_, ?_⟩) ?_⟩
      all_goals
        rw [next]
        rfl
  | cons p others ih =>
    obtain ⟨cls, handler⟩ := p
    cases start with
    | none =>
      cases chain
      cases definers
    | some start =>
      have found := Directory.findHandler_eq_head? send.message chain short
      rw [definers] at found
      obtain ⟨below, above, rfl, -, -, rfl⟩ := Directory.definers_eq_cons_iff.mp definers
      rw [List.length_append, List.length_cons] at short
      refine exists_inTurn_of_begins hn (by rw [control]; rfl)
        (step_of_found env control outline found) fun m' callers outline' control' => ?_
      rw [← callers]
      exact ih control' chain.above (by omega) (outline.trans outline') rfl

end

/-- **A send runs the handlers on the superclass chain in turn.**  Let a send be checked that has no
more arguments than it may, where handlers may still nest, and whose receiver is live; and let the
superclass chain from the receiver's class be within the limit.  The natives may do anything but
insert and remove classes.

The search finds a handler in the first class on the chain that defines the message, and in no
other.  If no class on the chain defines it, the answer is that the receiver's class does not know
the message.  Otherwise the handlers of the classes that define it run in turn, from the
receiver's class upwards, until one of them does not hand over; its result is the answer, and nil
is when all hand over. -/
theorem dispatch_in_turn (env : Environment) (hn : env.natives.KeepsClasses) (m : Machine)
    {send : Send} {o : Object} {cs : List Class} (control : m.control = .dispatch send)
    (named : send.arguments.length ≤ Limits.named)
    (depth : m.callers.depth < env.settings.maxDepth)
    (receiver : m.session.world.objects.get? send.receiver = some o)
    (chain : m.session.world.classes.Chain (some o.classId) cs)
    (short : cs.length ≤ Limits.classChain) :
    (∀ message c h, m.session.world.classes.findHandler o.classId message = some (c, h) ↔
      ∃ below above, cs = below ++ c :: above ∧ (∀ b ∈ below, b.handler? message = none) ∧
        c.handler? message = some h) ∧
    (Directory.definers send.message cs = [] →
      ∃ answered, Leads env (Idles m.callers) m answered ∧
        answered.control = .answer (.error (.unknownMessage o.classId send.message))) ∧
    (Directory.definers send.message cs ≠ [] →
      ∃ result answered,
        InTurn env send m.callers m (Directory.definers send.message cs) result answered ∧
          answered.control = .answer result ∧ answered.callers = m.callers) := by
  have next : m.step env = { m with control := .seek send o.classId false } := by
    unfold step
    rw [control]
    dsimp only
    rw [dispatch, if_neg (Nat.not_lt.mpr named), if_neg (Nat.not_le.mpr depth), receiver]
  have idles : Leads env (Idles m.callers) m (m.step env) :=
    .single ⟨rfl, by rw [control]; rfl⟩ ⟨by rw [next], by rw [next]; rfl⟩
  refine ⟨fun message c h => Directory.findHandler_eq_some_iff chain short, fun none => ?_,
    fun some => ?_⟩
  · have missing := Directory.findHandler_eq_head? send.message chain short
    rw [none] at missing
    have refused : (m.step env).step env = _ :=
      step_of_missing env (by rw [next]) (.refl _) (by rw [next]; exact missing)
    refine ⟨_, idles.trans (.single idles.last ⟨?_, ?_⟩), ?_⟩
    all_goals
      rw [refused, next]
      rfl
  · have found := Directory.findHandler_eq_head? send.message chain short
    generalize definers : Directory.definers send.message cs = handlers at found some
    obtain _ | ⟨⟨cls, handler⟩, others⟩ := handlers
    · exact absurd rfl some
    obtain ⟨below, above, rfl, -, -, rfl⟩ := Directory.definers_eq_cons_iff.mp definers
    rw [List.length_append, List.length_cons] at short
    have begins : (m.step env).step env = (m.step env).begin send cls handler :=
      step_of_found env (by rw [next]) (.refl _) (by rw [next]; exact found)
    obtain ⟨result, answered, inTurn⟩ :=
      exists_inTurn_of_begins hn idles.last.idle begins fun m' callers outline control' => by
        rw [← callers]
        exact exists_inTurn_of_handedOver hn control' chain.above (by omega)
          (by rw [next] at outline; exact outline)
    rw [idles.last.callers] at inTurn
    have inTurn := inTurn.of_idles idles
    exact ⟨result, answered, inTurn, inTurn.answer⟩

end Machine

namespace Engine

/-- A class that answers message 1 with the number 7. -/
def answering : Class where
  id := ⟨1⟩
  name := "Answering"
  handlers := (Handler.ofBody ⟨1⟩ "Run" #[0, 0, 0x98, 7, 0, 0, 0x10]).toOption.toList

/-- A class below it that hands message 1 over. -/
def deferring : Class where
  id := ⟨2⟩
  name := "Deferring"
  parent := some ⟨1⟩
  handlers := (Handler.ofBody ⟨1⟩ "Run" #[0, 0, 0x80]).toOption.toList

/-- An engine with one object, whose class hands over. -/
def withDeferring : Engine :=
  let e := (ofClass {} deferring).2
  { e with world := { e.world with classes := e.world.classes.insert answering } }

theorem dispatch_in_turn_deferring :
    let send : Send := ⟨⟨0⟩, ⟨1⟩, []⟩
    let m := withDeferring.start send
    let handlers := Directory.definers ⟨1⟩ [deferring, answering]
    handlers.length = 2 ∧ (withDeferring.send send).1 = .ok (.int 7) ∧
      ∃ result answered,
        Machine.InTurn withDeferring.environment send m.callers m handlers result answered ∧
          answered.control = .answer result ∧ answered.callers = m.callers := by
  intro send m handlers
  have natives : withDeferring.natives.KeepsClasses := NativeTable.isStandard_standard.keepsClasses
  have chain : m.session.world.classes.Chain (some ⟨2⟩) [deferring, answering] :=
    .step rfl (.step rfl .root)
  have halts : ((Machine.step withDeferring.environment)^[8] m).control.isHalted = true := by
    decide +kernel
  have result : (withDeferring.send send).1 = .ok (.int 7) := by
    rw [send_eq, Machine.run_eq_iterate _ 8 _ halts]
    decide +kernel
  have receiver : m.session.world.objects.get? ⟨0⟩ =
      some { id := ⟨0⟩, classId := ⟨2⟩, cache := some 0 } := rfl
  obtain ⟨-, -, inTurn⟩ := Machine.dispatch_in_turn withDeferring.environment natives m rfl
    (by decide) (by decide) receiver chain (by decide)
  exact ⟨rfl, result, inTurn (by exact List.cons_ne_nil _ _)⟩

end Engine

end MessageMachine
