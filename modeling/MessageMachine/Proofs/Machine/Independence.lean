import MessageMachine.Proofs.Machine.Cutoff
import MessageMachine.Proofs.Machine.Lockstep

/-!
# Nested sends stand on their own

A nested send does what it would do as a send from the top, if the limits were only what is left of
them. Who has made it makes no difference: not the handlers that wait for it, nor what they have
written into their frames, nor what was counted and recorded before.

The two runs are compared state by state.  What the nested send stands on is its `Footing`; the
state of the nested run is the state of the other one, put on that footing (`Machine.Above`).  A
limit stops both runs at the same state, but it is not the same number that they then complain
about.  So faults agree up to such numbers, which nobody but the top ever sees: a send refused for
its depth looks like nil to its sender, and an exhausted budget ends every handler.
-/

namespace MessageMachine

/-! ## Faults without their numbers -/

/-- The fault without the number of the limit that has raised it. -/
def Fault.unnumbered : Fault → Fault
  | recursionLimit _ => recursionLimit 0
  | statementBudget _ => statementBudget 0
  | f => f

theorem Fault.aborts_unnumbered (f : Fault) : f.unnumbered.aborts = f.aborts := by
  cases f <;> rfl

/-- The same up to the numbers of limits. -/
def SameResult {α : Type} (r r' : Except Fault α) : Prop :=
  r.mapError Fault.unnumbered = r'.mapError Fault.unnumbered

namespace SameResult

variable {α : Type} {r r' : Except Fault α}

theorem refl (r : Except Fault α) : SameResult r r := rfl

theorem error {f f' : Fault} (h : f.unnumbered = f'.unnumbered) :
    SameResult (.error f : Except Fault α) (.error f') :=
  congrArg Except.error h

theorem cases (h : SameResult r r') :
    (∃ a, r = .ok a ∧ r' = .ok a) ∨
      ∃ f f', r = .error f ∧ r' = .error f' ∧ f.unnumbered = f'.unnumbered := by
  match r, r' with
  | .ok a, .ok a' =>
    cases h
    exact .inl ⟨a, rfl, rfl⟩
  | .error f, .error f' => exact .inr ⟨f, f', rfl, rfl, Except.error.inj h⟩
  | .ok _, .error _ | .error _, .ok _ => cases h

/-- Senders see the same. -/
theorem contained {r r' : Except Fault Value} (h : SameResult r r') :
    SameResult (contained r) (contained r') := by
  rcases h.cases with ⟨v, rfl, rfl⟩ | ⟨f, f', rfl, rfl, same⟩
  · exact refl _
  · have aborts : f.aborts = f'.aborts := by
      rw [← f.aborts_unnumbered, same, f'.aborts_unnumbered]
    simp only [MessageMachine.contained, aborts]
    split
    · exact error same
    · exact refl _

end SameResult

/-! ## Worlds that coincide -/

/-- The same objects, classes and posts. -/
structure World.Coincides (w w' : World) : Prop where
  objects : w.objects = w'.objects
  classes : w.classes = w'.classes
  posts : w.posts = w'.posts

theorem World.congruence_coincides : World.Congruence World.Coincides where
  read h _ _ frames receiver kind data := by
    obtain ⟨same, objects, e, e'⟩ := read_of_same h.objects h.classes frames receiver kind data
    rw [e, e']
    exact ⟨same, rfl, h.classes, h.posts⟩
  write h _ _ frames receiver place index value := by
    obtain ⟨same, objects, e, e'⟩ := write_of_same h.objects frames receiver place index value
    rw [e, e']
    exact ⟨same, rfl, h.classes, h.posts⟩
  posts h := h.posts
  post h _ := ⟨h.objects, h.classes, rfl⟩
  classes h := h.classes
  classOf h id := by rw [h.objects]
  clock h _ _ := ⟨h.objects, h.classes, h.posts⟩
  log h _ := ⟨h.objects, h.classes, h.posts⟩
  remark h _ _ := ⟨h.objects, h.classes, h.posts⟩
  remark' h _ _ := ⟨h.objects, h.classes, h.posts⟩

/-! ## States on a footing -/

/-- What a nested send stands on: the callers that wait for it, and what was counted before it. -/
structure Footing where
  callers : Callers
  statements : Nat
  nativeCalls : Nat

/-- The limits of `env'` are those of `env` as seen from the footing.  The natives are the same. -/
structure Environment.Above (b : Footing) (env env' : Environment) : Prop where
  natives : env'.natives = env.natives
  maxStatements : env.settings.maxStatements = env'.settings.maxStatements + b.statements
  maxDepth : env.settings.maxDepth = env'.settings.maxDepth + b.callers.depth

/-- What was counted in `s'` comes on top of what was counted before. -/
structure Session.Above (b : Footing) (s s' : Session) : Prop where
  world : s.world.Coincides s'.world
  statements : s.statements = s'.statements + b.statements
  nativeCalls : s.nativeCalls = s'.nativeCalls + b.nativeCalls

/-- The callers `cs'`, or callers that are like them, wait on top of those of the footing. -/
def Callers.Above (b : Footing) (cs cs' : Callers) : Prop :=
  ∃ upper, cs.list = upper ++ b.callers.list ∧ List.Forall₂ Caller.Alike upper cs'.list

/-- The same is to be done next, in a run that is not over. -/
inductive Control.Akin : Control → Control → Prop
  | dispatch (send : Send) : Akin (.dispatch send) (.dispatch send)
  | seek (send : Send) (start : ClassId) (again : Bool) :
    Akin (.seek send start again) (.seek send start again)
  | execute {e e' : Execution} (h : e.Alike e') : Akin (.execute e) (.execute e')
  | abandon {e e' : Execution} (h : e.Alike e') {f f' : Fault}
      (same : f.unnumbered = f'.unnumbered) :
    Akin (.abandon e f) (.abandon e' f')
  | answer {r r' : Except Fault Value} (same : SameResult r r') : Akin (.answer r) (.answer r')

/-- The state `m` is `m'` put on the footing. -/
structure Machine.Above (b : Footing) (m m' : Machine) : Prop where
  session : m.session.Above b m'.session
  callers : m.callers.Above b m'.callers
  control : m.control.Akin m'.control

/-! ## Callers -/

namespace Callers.Above

variable {b : Footing} {cs cs' : Callers}

theorem depth (h : cs.Above b cs') : cs.depth = cs'.depth + b.callers.depth := by
  obtain ⟨upper, list, alike⟩ := h
  rw [cs.depth_eq, cs.activations_eq, list, List.filterMap_append, List.length_append,
    Caller.filterMap_activation?_of_alike alike, cs'.depth_eq, cs'.activations_eq,
    b.callers.depth_eq, b.callers.activations_eq]

theorem push (h : cs.Above b cs') {c c' : Caller} (hc : c.Alike c') :
    (cs.push c).Above b (cs'.push c') := by
  obtain ⟨upper, list, alike⟩ := h
  refine ⟨c :: upper, ?_, ?_⟩
  · rw [list_push, list, List.cons_append]
  · rw [list_push]
    exact .cons hc alike

/-- The innermost caller of one is like that of the other. -/
theorem exists_pop? (h : cs.Above b cs') {c' : Caller} {others' : Callers}
    (pop : cs'.pop? = some (c', others')) :
    ∃ c others, cs.pop? = some (c, others) ∧ c.Alike c' ∧ others.Above b others' := by
  obtain ⟨upper, list, alike⟩ := h
  rw [list_of_pop? pop] at alike
  cases alike with
  | @cons c _ rest _ head alike =>
    cases popped : cs.pop? with
    | none =>
      rw [list_of_pop?_none popped] at list
      cases list
    | some p =>
      obtain ⟨d, others⟩ := p
      rw [list_of_pop? popped, List.cons_append] at list
      cases List.head_eq_of_cons_eq list
      exact ⟨c, others, rfl, head, rest, List.tail_eq_of_cons_eq list, alike⟩

/-- Only the footing is left. -/
theorem eq_of_pop?_none (h : cs.Above b cs') (pop : cs'.pop? = none) : cs = b.callers := by
  obtain ⟨upper, list, alike⟩ := h
  rw [list_of_pop?_none pop] at alike
  cases alike
  exact ext_list list

theorem suffix (h : cs.Above b cs') : b.callers.list <:+ cs.list := by
  obtain ⟨upper, list, -⟩ := h
  exact ⟨upper, list.symm⟩

end Callers.Above

/-! ## Steps -/

namespace Session.Above

variable {b : Footing} {s s' t t' : Session}

/-- Bookkeeping on both sides. -/
theorem idle (h : s.Above b s') (left : s.Idle t) (right : s'.Idle t') : t.Above b t' where
  world := {
    objects := left.objects.trans (h.world.objects.trans right.objects.symm)
    classes := left.classes.trans (h.world.classes.trans right.classes.symm)
    posts := left.posts.trans (h.world.posts.trans right.posts.symm) }
  statements := by rw [left.statements, right.statements, h.statements]
  nativeCalls := by rw [left.nativeCalls, right.nativeCalls, h.nativeCalls]

theorem moment (h : s.Above b s') {e e' : Execution} (he : e.Alike e') :
    (s.moment e).Alike World.Coincides b.nativeCalls (s'.moment e') :=
  ⟨h.world, h.nativeCalls, he⟩

theorem after (h : s.Above b s') {m m' : Moment}
    (hm : m.Alike World.Coincides b.nativeCalls m') : (s.after m).Above b (s'.after m') :=
  ⟨hm.world, h.statements, hm.nativeCalls⟩

end Session.Above

namespace Machine.Above

variable {b : Footing} {m m' : Machine} (hs : m.session.Above b m'.session)
  (hc : m.callers.Above b m'.callers)

include hs hc

theorem refuse {f f' : Fault} (same : f.unnumbered = f'.unnumbered) :
    (m.refuse f).Above b (m'.refuse f') :=
  ⟨hs.idle (m.idle_refuse f) (m'.idle_refuse f'), hc, .answer (.error same)⟩

theorem dispatch {env env' : Environment} (he : env.Above b env') (send : Send) :
    (m.dispatch env send).Above b (m'.dispatch env' send) := by
  have deep :
      env.settings.maxDepth ≤ m.callers.depth ↔ env'.settings.maxDepth ≤ m'.callers.depth := by
    have depth := hc.depth
    have limit := he.maxDepth
    omega
  unfold Machine.dispatch
  rw [hs.world.objects]
  by_cases named : Limits.named < send.arguments.length
  · rw [if_pos named, if_pos named]
    exact refuse hs hc rfl
  rw [if_neg named, if_neg named]
  by_cases full : env.settings.maxDepth ≤ m.callers.depth
  · rw [if_pos full, if_pos (deep.mp full)]
    exact refuse hs hc rfl
  rw [if_neg full, if_neg (mt deep.mpr full)]
  cases m'.session.world.objects.get? send.receiver with
  | none => exact refuse hs hc rfl
  | some o => exact ⟨hs, hc, .seek _ _ _⟩

theorem seek (send : Send) (start : ClassId) (again : Bool) :
    (m.seek send start again).Above b (m'.seek send start again) := by
  unfold Machine.seek
  rw [hs.world.classes]
  split
  · rename_i cls handler found
    exact ⟨⟨⟨hs.world.objects, hs.world.classes, hs.world.posts⟩, hs.statements, hs.nativeCalls⟩,
      hc, .execute ⟨rfl, rfl, rfl, handler.alike_bind _ _ _, rfl⟩⟩
  · split
    · exact ⟨hs, hc, .answer (.refl _)⟩
    · exact refuse hs hc rfl

variable (m m') in
/-- A handler has ended. -/
theorem leave (env env' : Environment) {e e' : Execution} (h : e.Alike e')
    (handles : e'.role.isSome = true) {r r' : Except Fault Ending} (same : SameResult r r') :
    (m.leave env e r).Above b (m'.leave env' e' r') := by
  obtain ⟨x', role'⟩ := Option.isSome_iff_exists.mp handles
  have role := h.role
  rw [role'] at role
  obtain ⟨x, role, untimed⟩ := Option.map_eq_some_iff.mp role
  have session := hs.idle (m.idle_leave env e r) (m'.idle_leave env' e' r')
  rw [leave_handler env m role, leave_handler env' m' role'] at session ⊢
  refine ⟨session, hc, ?_⟩
  -- what follows does not depend on when the handler began
  have follows : x.followUp r' = x'.followUp r' := by
    have early (y : Handling) : y.followUp r' = y.untimed.followUp r' := rfl
    rw [early, early x', untimed]
  show (x.followUp r).Akin (x'.followUp r')
  rw [← follows]
  rcases same.cases with ⟨ending, rfl, rfl⟩ | ⟨f, f', rfl, rfl, faults⟩
  · rcases x.followUp_cases (.ok ending) with ⟨f, fails, -⟩ | ⟨_, v, -, e⟩ | ⟨parent, -, e⟩
    · cases fails
    · rw [e]
      exact .answer (.refl _)
    · rw [e]
      exact .seek _ _ _
  · exact .answer (.error faults)

theorem abandon (env env' : Environment) {e e' : Execution} (h : e.Alike e')
    (handles : e'.role.isSome = true) {f f' : Fault} (same : f.unnumbered = f'.unnumbered) :
    (m.abandon env e f).Above b (m'.abandon env' e' f') :=
  leave { m with session := _ } { m' with session := _ }
    (hs.idle (.report _ _ _) (.report _ _ _)) hc env env' h handles (.error same)

variable (m m') in
theorem settle (env env' : Environment) {moment moment' : Moment}
    (h : moment.Alike World.Coincides b.nativeCalls moment')
    (handles : moment'.execution.role.isSome = true) (result : Except Fault Next) :
    (m.settle env result moment).Above b (m'.settle env' result moment') := by
  have session := hs.after h
  match result with
  | .error f => exact ⟨session, hc, .abandon h.execution rfl⟩
  | .ok .proceed => exact ⟨session, hc, .execute h.execution⟩
  | .ok (.await send destination) =>
    exact ⟨session, hc.push ⟨h.execution, rfl, rfl⟩, .dispatch send⟩
  | .ok (.leave ending) =>
    exact leave { m with session := _ } { m' with session := _ } session hc env env' h.execution
      handles (.refl _)

/-- The budgets are met at the same statement. -/
theorem execute {env env' : Environment} (he : env.Above b env') (hn : env.natives.IsStandard)
    {e e' : Execution} (h : e.Alike e') (handles : e'.role.isSome = true) :
    (m.execute env e).Above b (m'.execute env' e') := by
  have counted : m.counted.session.Above b m'.counted.session := by
    refine ⟨hs.world, ?_, hs.nativeCalls⟩
    show m.session.statements + 1 = m'.session.statements + 1 + b.statements
    rw [hs.statements, Nat.add_right_comm]
  have within : m.session.statements < env.settings.maxStatements ↔
      m'.session.statements < env'.settings.maxStatements := by
    rw [hs.statements, he.maxStatements]
    exact Nat.add_lt_add_iff_right
  have code : e.cursor.atEnd = e'.cursor.atEnd := congrArg Cursor.atEnd h.cursor
  cases atEnd : e.cursor.atEnd with
  | true =>
    rw [execute_of_atEnd env m atEnd, execute_of_atEnd env' m' (code ▸ atEnd)]
    exact ⟨hs, hc, .abandon h rfl⟩
  | false =>
    by_cases budget : m.session.statements < env.settings.maxStatements
    · have blind : Action.Blind World.Coincides b.nativeCalls
          (Action.statement (m.scope env (m.session.statements + 1)))
          (Action.statement (m'.scope env' (m'.session.statements + 1))) :=
        Action.Blind.statement World.congruence_coincides hn he.natives
      obtain ⟨same, related⟩ := blind _ _ (hs.moment h)
      have tame := (Action.Tame.statement (m'.scope env' (m'.session.statements + 1))
        (he.natives ▸ hn)) (m'.session.moment e')
      rw [execute_eq env m atEnd budget, execute_eq env' m' (code ▸ atEnd) (within.mp budget),
        ← same]
      exact settle m.counted m'.counted counted hc env env' related
        (tame.1.execution.isSome_role.trans handles) _
    · have exhausted := Nat.le_of_not_lt budget
      have exhausted' := Nat.le_of_not_lt (mt within.mpr budget)
      rw [execute_of_overrun env m atEnd exhausted,
        execute_of_overrun env' m' (code ▸ atEnd) exhausted']
      exact ⟨counted, hc, .abandon h rfl⟩

variable (m m') in
theorem resume {c c' : Caller} (h : c.Alike c') (value : Value) :
    (m.resume c value).Above b (m'.resume c' value) := by
  obtain ⟨same, related⟩ := Action.Blind.assignIf World.congruence_coincides c.destination value _ _
    (hs.moment h.execution)
  unfold Machine.resume
  rw [← h.destination]
  generalize Action.assignIf c.destination value (m.session.moment c.execution) = outcome
    at same related
  generalize Action.assignIf c.destination value (m'.session.moment c'.execution) = outcome'
    at same related
  obtain ⟨result, moment⟩ := outcome
  obtain ⟨result', moment'⟩ := outcome'
  cases same
  cases result with
  | ok u => exact ⟨hs.after related, hc, .execute related.execution⟩
  | error f => exact ⟨hs.after related, hc, .abandon related.execution rfl⟩

/-- A caller above the footing takes what it sees of an answer. -/
theorem answer {r r' : Except Fault Value} (same : SameResult r r') {c' : Caller}
    {others' : Callers} (pop' : m'.callers.pop? = some (c', others')) :
    (m.answer r).Above b (m'.answer r') := by
  obtain ⟨c, others, pop, caller, hc⟩ := hc.exists_pop? pop'
  rw [answer_eq, answer_eq, pop, pop']
  dsimp only
  rcases same.contained.cases with ⟨v, seen, seen'⟩ | ⟨f, f', seen, seen', faults⟩
  · rw [seen, seen']
    exact resume { session := _, callers := others, control := _ }
      { session := _, callers := others', control := _ }
      (hs.idle (.forgive _ c r) (.forgive _ c' r')) hc caller v
  · rw [seen, seen']
    exact ⟨hs, hc, .abandon caller.execution faults⟩

end Machine.Above

/-! ## Runs -/

namespace Machine

variable {b : Footing} {env env' : Environment} (he : env.Above b env')
  (hn : env.natives.IsStandard)

include he hn

/-- **A step on the footing is the step without it**, as long as an answer has a caller above the
footing. -/
theorem Above.step {m m' : Machine} (h : m.Above b m')
    (handlers : ∀ x ∈ m'.active, x.role.isSome = true)
    (waited : ∀ r, m'.control = .answer r → m'.callers.pop? ≠ none) :
    (m.step env).Above b (m'.step env') := by
  have ⟨hs, hc, akin⟩ := h
  have works {e' : Execution} (work : m'.control.execution? = some e') : e'.role.isSome = true :=
    handlers e' (mem_active_of_work work)
  generalize control : m.control = c at akin
  generalize control' : m'.control = c' at akin works waited
  unfold Machine.step
  rw [control, control']
  cases akin with
  | dispatch send => exact dispatch hs hc he send
  | seek send start again => exact seek hs hc send start again
  | execute alike => exact execute hs hc he hn alike (works rfl)
  | abandon alike same => exact abandon hs hc env env' alike (works rfl) same
  | answer same =>
    cases pop' : m'.callers.pop? with
    | none => exact absurd pop' (waited _ rfl)
    | some p => exact answer hs hc same pop'

/-- **The run without the footing halts, and on the footing there is an answer then.**  It is the
same answer, and only the footing is left. -/
theorem Above.exists_answer {m m' : Machine} (h : m.Above b m')
    (handlers : ∀ x ∈ m'.active, x.role.isSome = true) :
    ∃ answered r r', answered.control = .answer r ∧ answered.callers = b.callers ∧
      Leads env (fun s => b.callers.list <:+ s.callers.list) m answered ∧
      (m'.run env').control = .halted (r'.map .value) none ∧ SameResult r r' ∧
      answered.session.Above b (m'.run env').session := by
  induction m' using run_induction env' generalizing m with
  | halted m' halted =>
    have akin := h.control
    generalize m.control = c at akin
    generalize m'.control = c' at akin halted
    cases akin <;> cases halted
  | running m' running ih =>
    rw [← run_step]
    by_cases last : ∃ r', m'.control = .answer r' ∧ m'.callers.pop? = none
    · obtain ⟨r', control', pop'⟩ := last
      have halts : m'.step env' = { m' with control := .halted (r'.map .value) none } := by
        unfold Machine.step
        rw [control']
        dsimp only
        rw [answer_eq, pop']
      rw [halts, run_of_halted env' rfl]
      have akin := h.control
      generalize control : m.control = c at akin
      rw [control'] at akin
      cases akin with
      | @answer r _ same =>
        exact ⟨m, r, r', control, h.callers.eq_of_pop?_none pop', .refl h.callers.suffix, rfl, same,
          h.session⟩
    · have waited : ∀ r', m'.control = .answer r' → m'.callers.pop? ≠ none :=
        fun r' control' pop' => last ⟨r', control', pop'⟩
      have next := h.step he hn handlers waited
      obtain ⟨answered, r, r', control, callers, leads, rest⟩ :=
        ih next ((transition_step env' m' running).handlers handlers)
      exact ⟨answered, r, r', control, callers,
        (Leads.single h.callers.suffix next.callers.suffix).trans leads, rest⟩

end Machine

/-! ## Sends from the top -/

/-- The engine stands where the machine stands, with nothing waiting and nothing counted: it has the
same natives, objects, classes and posts, and its limits are what is left to the machine. -/
structure Engine.TakesOver (e : Engine) (env : Environment) (m : Machine) : Prop where
  natives : e.natives = env.natives
  objects : e.world.objects = m.session.world.objects
  classes : e.world.classes = m.session.world.classes
  waiting : e.world.posts.waiting = m.session.world.posts.waiting
  capacity : e.settings.postCapacity = m.session.world.posts.capacity
  maxStatements : e.settings.maxStatements + m.session.statements = env.settings.maxStatements
  maxDepth : e.settings.maxDepth + m.depth = env.settings.maxDepth

/-- The engine that takes over from a machine, when its limits have not been passed yet. -/
def Environment.takeOver (env : Environment) (m : Machine) : Engine where
  settings :=
    { env.settings with
      maxStatements := env.settings.maxStatements - m.session.statements
      maxDepth := env.settings.maxDepth - m.depth
      postCapacity := m.session.world.posts.capacity }
  natives := env.natives
  world := m.session.world

theorem Environment.takesOver_takeOver {env : Environment} {m : Machine}
    (statements : m.session.statements ≤ env.settings.maxStatements)
    (depth : m.depth ≤ env.settings.maxDepth) : (env.takeOver m).TakesOver env m where
  natives := rfl
  objects := rfl
  classes := rfl
  waiting := rfl
  capacity := rfl
  maxStatements := Nat.sub_add_cancel statements
  maxDepth := Nat.sub_add_cancel depth

namespace Engine

/-- **A nested send is a send from the top with the limits that are left.**  Let the natives be
standard.  Take any state at which a send is checked, with whatever callers waiting, and an engine
that stands there with nothing waiting and nothing counted.  The send is answered, with the same
callers waiting as at its check and with these waiting all the time in between.  The engine answers
it in the same way, up to the numbers of the limits; and it comes to the same objects, classes and
posts, by as many statements and native calls. -/
theorem send_of_nested (e : Engine) {env : Environment} (hn : env.natives.IsStandard) {m : Machine}
    {send : Send} (control : m.control = .dispatch send) (h : e.TakesOver env m) :
    let result := (e.send send).1
    let after := (e.send send).2.world
    let counts := ((e.start send).run e.environment).session
    ∃ answered r, answered.control = .answer r ∧ answered.callers = m.callers ∧
      Machine.Leads env (fun s => m.callers.list <:+ s.callers.list) m answered ∧
      r.mapError Fault.unnumbered = result.mapError Fault.unnumbered ∧
      answered.session.world.objects = after.objects ∧
      answered.session.world.classes = after.classes ∧
      answered.session.world.posts = after.posts ∧
      answered.session.statements = m.session.statements + counts.statements ∧
      answered.session.nativeCalls = m.session.nativeCalls + counts.nativeCalls := by
  intro result after counts
  let b : Footing := ⟨m.callers, m.session.statements, m.session.nativeCalls⟩
  have limits : env.Above b e.environment := by
    refine ⟨h.natives, h.maxStatements.symm, ?_⟩
    rw [← h.maxDepth, Machine.depth_of_dispatch control]
    rfl
  have above : m.Above b (e.start send) := by
    refine ⟨⟨⟨h.objects.symm, h.classes.symm, ?_⟩, (Nat.zero_add _).symm, (Nat.zero_add _).symm⟩,
      ⟨[], rfl, .nil⟩, ?_⟩
    · show m.session.world.posts = ⟨e.settings.postCapacity, e.world.posts.waiting⟩
      rw [h.capacity, h.waiting]
    · rw [control]
      exact .dispatch send
  obtain ⟨answered, r, r', answer, callers, leads, halted, same, session⟩ :=
    above.exists_answer limits hn fun x hx => by cases hx
  have answers : result = r' := by
    show ((e.start send).run e.environment).result = r'
    rw [Machine.result, halted]
    cases r' <;> rfl
  refine ⟨answered, r, answer, callers, leads, ?_, session.world.objects, session.world.classes,
    session.world.posts, ?_, ?_⟩
  · rw [answers]
    exact same
  · rw [session.statements, Nat.add_comm]
  · rw [session.nativeCalls, Nat.add_comm]

/-- The second send of `recalling`, which its object makes to itself. -/
theorem send_of_nested_recalling :
    recalling.environment.natives.IsStandard ∧
      ∃ m ∈ recalling.states ⟨⟨0⟩, ⟨1⟩, []⟩, ∃ e : Engine,
        m.control = .dispatch ⟨⟨0⟩, ⟨1⟩, []⟩ ∧ m.depth = 1 ∧ m.session.statements = 3 ∧
        e.TakesOver recalling.environment m ∧
        ∃ answered : Machine, answered.control = .answer (.ok (.int 7)) ∧
          answered.callers = m.callers := by
  have natives : recalling.environment.natives.IsStandard := NativeTable.isStandard_standard
  let env := recalling.environment
  let m := (Machine.step env)^[5] (recalling.start ⟨⟨0⟩, ⟨1⟩, []⟩)
  have control : m.control = .dispatch ⟨⟨0⟩, ⟨1⟩, []⟩ := by
    have shown : (match m.control with
        | .dispatch inner => decide (inner = ⟨⟨0⟩, ⟨1⟩, []⟩)
        | _ => false) = true := by decide +kernel
    generalize m.control = c at shown
    cases c with
    | dispatch inner => rw [of_decide_eq_true shown]
    | _ => cases shown
  have depth : m.depth = 1 := by decide +kernel
  have statements : m.session.statements = 3 := by decide +kernel
  have takesOver : (env.takeOver m).TakesOver env m :=
    Environment.takesOver_takeOver (by decide +kernel) (by decide +kernel)
  have answer : ((env.takeOver m).send ⟨⟨0⟩, ⟨1⟩, []⟩).1.toOption = some (.int 7) := by
    have halts : ((Machine.step (env.takeOver m).environment)^[5]
        ((env.takeOver m).start ⟨⟨0⟩, ⟨1⟩, []⟩)).control.isHalted = true := by decide +kernel
    rw [send_eq, Machine.run_eq_iterate _ 5 _ halts]
    decide +kernel
  obtain ⟨answered, r, answers, callers, -, same, -⟩ :=
    send_of_nested (env.takeOver m) natives control takesOver
  refine ⟨natives, m, Machine.iterate_mem_trace env 5 _, env.takeOver m, control, depth, statements,
    takesOver, answered, ?_, callers⟩
  generalize ((env.takeOver m).send ⟨⟨0⟩, ⟨1⟩, []⟩).1 = result at answer same
  rcases SameResult.cases same with ⟨v, rfl, rfl⟩ | ⟨f, f', rfl, rfl, -⟩
  · cases answer
    exact answers
  · cases answer

end Engine

end MessageMachine
