import MessageMachine.Proofs.Ledger
import MessageMachine.Proofs.Statement.InPlace

/-!
# The native function that a statement runs

A statement runs at most one native function, and it does so when all operands of its call have been
fetched.  `Action.invocation?` says which function that is, what it sees of the call, and the world
that it runs in; there is none when the statement is no call, cannot be read, or fails before.

With it, what a statement posts and counts can be said without opening the statement: nothing, if it
runs no function, and otherwise the call itself and what the function does
(`Action.invocation?_cases`).  Of the standard functions only `PostMessage` does anything to the
posts that wait, and its reply says what (`Invocation.takes_postEvent?`).

A standard function does not see everything that a call shows.  It does not look at the settings,
the counters or the frame (`Native.IsStandard.run_congr`), and so neither does a statement that
calls one (`Action.statement_congr`).
-/

namespace MessageMachine

/-! ## What a function sees -/

/-- The send that the operands describe, or the complaint in its place. -/
theorem Call.send_congr {c c' : Call} (name : c'.name = c.name)
    (positional : c'.positional = c.positional) (named : c'.named = c.named) :
    c'.send = c.send := by
  simp only [send, object, message, operand, complain, name, positional, named]

/-- A standard native function looks at the name and the operands of the call, and at the stack. -/
theorem Native.IsStandard.run_congr {n : Native} (h : n.IsStandard) {c c' : Call} (w : World)
    (name : c'.name = c.name) (positional : c'.positional = c.positional)
    (named : c'.named = c.named) (stack : c'.stack = c.stack) : n.run c' w = n.run c w := by
  have send := Call.send_congr name positional named
  have position : c'.position = c.position := by
    rw [Call.position, stack, Call.position]
  rcases h with h | h | h
  · rw [h]
    simp only [sendMessage, send]
  · rw [h]
    simp only [postMessage, send, position]
  · rw [h]
    simp only [debug, positional, position]

/-- A standard native function looks at the posts of a world alone: it replies the same in worlds
with the same posts, and does the same to both. -/
theorem Native.IsStandard.run_related {V : World → World → Prop} {n : Native} (h : n.IsStandard)
    (posts : ∀ {w w'}, V w w' → w.posts = w'.posts)
    (withPosts : ∀ {w w'}, V w w' → ∀ posts, V { w with posts } { w' with posts })
    (log : ∀ {w w'}, V w w' → ∀ x, V (w.log x) (w'.log x)) (c : Call) {w w' : World}
    (related : V w w') : (n.run c w).1 = (n.run c w').1 ∧ V (n.run c w).2 (n.run c w').2 := by
  rcases h with h | h | h
  · rw [h]
    unfold sendMessage
    dsimp only
    cases c.send with
    | ok s => exact ⟨rfl, related⟩
    | error f => exact ⟨rfl, related⟩
  · rw [h]
    unfold postMessage
    dsimp only
    rw [← posts related]
    cases c.send with
    | error f => exact ⟨rfl, related⟩
    | ok s =>
      dsimp only
      cases w.posts.push? s with
      | some posts => exact ⟨rfl, withPosts related posts⟩
      | none => exact ⟨rfl, log related _⟩
  · rw [h]
    exact ⟨rfl, log related _⟩

namespace Action

/-- What a native function sees of a call. -/
def seenCall (scope : Scope) (native : Native) (positional : List Value) (named : List Argument)
    (m : Moment) : Call where
  name := native.name
  receiver := m.execution.receiver
  frame := m.execution.frame
  positional := positional
  named := named
  stack := m.execution.stackOn scope.below
  settings := scope.environment.settings
  statistics := m.statistics
  statements := scope.statements
  nativeCalls := m.nativeCalls

/-- The moment at which a call has been counted and recorded. -/
def countedCall (index : UInt8) (native : Native) (m : Moment) : Moment :=
  { m with
    statistics := m.statistics.countNative index
    nativeCalls := m.nativeCalls + 1
    world := m.world.log (.nativeCall native.name index) }

/-- To invoke a function is to count and record the call and to run the function. -/
theorem invoke_eq (scope : Scope) (index : UInt8) (native : Native) (positional : List Value)
    (named : List Argument) (m : Moment) :
    invoke scope index native positional named m =
      (.ok (native.run (seenCall scope native positional named (countedCall index native m))
          (countedCall index native m).world).1,
        { countedCall index native m with
          world := (native.run (seenCall scope native positional named (countedCall index native m))
            (countedCall index native m).world).2 }) :=
  rfl

/-! ## What a statement consults -/

theorem invoke_congr {scope scope' : Scope} {native : Native} (h : native.IsStandard)
    (below : scope'.below = scope.below) (index : UInt8) (positional : List Value)
    (named : List Argument) :
    invoke scope' index native positional named = invoke scope index native positional named := by
  funext m
  let seen (scope : Scope) := seenCall scope native positional named (countedCall index native m)
  have stack : (seen scope').stack = (seen scope).stack := by
    simp only [seen, seenCall, below]
  have runs (w : World) : native.run (seen scope') w = native.run (seen scope) w :=
    h.run_congr w rfl rfl rfl stack
  rw [invoke_eq, invoke_eq, runs]

theorem conclude_congr {scope scope' : Scope} (hn : scope.environment.natives.IsStandard)
    (natives : scope'.environment.natives = scope.environment.natives)
    (below : scope'.below = scope.below) (index : UInt8) (destination : Option Destination)
    (positional : List Value) (named : List Argument) :
    conclude scope' index destination positional named =
      conclude scope index destination positional named := by
  unfold conclude
  rw [natives]
  cases slot : scope.environment.natives.slot index with
  | none => rfl
  | some native =>
    dsimp only
    rw [invoke_congr (hn index native slot) below]

/-- **Of its scope a statement consults** the natives, the stack, and whether it is
to be recorded. -/
theorem statement_congr {scope scope' : Scope} (hn : scope.environment.natives.IsStandard)
    (natives : scope'.environment.natives = scope.environment.natives)
    (below : scope'.below = scope.below)
    (trace : scope'.environment.settings.traceInstructions =
      scope.environment.settings.traceInstructions) :
    statement scope' = statement scope := by
  have rests (opcode : Opcode) (command : Command) :
      rest scope' opcode command = rest scope opcode command := by
    cases command with
    | call =>
      show call scope' opcode = call scope opcode
      rw [call_eq, call_eq]
      simp only [conclude_congr hn natives below]
    | _ => rfl
  unfold statement
  simp only [trace, rests]

end Action

/-! ## Invocations -/

/-- A native function about to run, with what it sees of the call and the world that it runs in. -/
structure Invocation where
  native : Native
  call : Call
  world : World

namespace Invocation

/-- The reply of the function. -/
def reply (i : Invocation) : Reply := (i.native.run i.call i.world).1

/-- The world that the function leaves behind. -/
def after (i : Invocation) : World := (i.native.run i.call i.world).2

/-- What the reply says about a post: one says that it was accepted, and zero that
it was refused. -/
def postEvent? (i : Invocation) : Option PostEvent :=
  match i.call.send, i.reply with
  | .ok post, .value v =>
    if v = .int 1 then some (.accepted post)
    else if v = .int 0 then some (.refused post)
    else none
  | _, _ => none

/-- A script is never told of a delivery. -/
theorem delivered?_of_postEvent? {i : Invocation} {x : PostEvent} (h : i.postEvent? = some x) :
    x.delivered? = none := by
  unfold postEvent? at h
  split at h
  · split at h
    · cases h
      rfl
    split at h
    · cases h
      rfl
    · cases h
  · cases h

/-- `SendMessage` and `Debug` do nothing to the posts, and their replies say nothing about one. -/
theorem idle_of_not_postMessage {i : Invocation}
    (h : i.native.run = Native.sendMessage.run ∨ i.native.run = Native.debug.run) :
    i.postEvent? = none ∧ i.after.posts = i.world.posts := by
  unfold postEvent? reply after
  rcases h with h | h
  · rw [h]
    simp only [Native.sendMessage]
    cases i.call.send <;> exact ⟨rfl, rfl⟩
  · rw [h]
    simp only [Native.debug]
    cases i.call.send <;> exact ⟨rfl, rfl⟩

/-- `PostMessage` puts a post into the queue if there is room for it, and its reply
tells the truth. -/
theorem takes_postMessage {i : Invocation} (h : i.native.run = Native.postMessage.run) :
    i.world.posts.Takes i.postEvent? i.after.posts := by
  unfold postEvent? reply after
  rw [h]
  simp only [Native.postMessage]
  cases i.call.send with
  | error f => exact rfl
  | ok post =>
    dsimp only
    cases push : i.world.posts.push? post with
    | none => exact .refused ((PostQueue.push?_eq_none_iff _ _).mp push)
    | some posts => exact PostQueue.happens_of_push? push

/-- **What a standard function does to the posts** is what its reply says. -/
theorem takes_postEvent? {i : Invocation} (h : i.native.IsStandard) :
    i.world.posts.Takes i.postEvent? i.after.posts := by
  have idle (h : i.native.run = Native.sendMessage.run ∨ i.native.run = Native.debug.run) :
      i.world.posts.Takes i.postEvent? i.after.posts := by
    obtain ⟨none, same⟩ := idle_of_not_postMessage h
    rw [none]
    exact same
  rcases h with h | h | h
  · exact idle (.inl h)
  · exact takes_postMessage h
  · exact idle (.inr h)

/-- **What is told of a post is told by `PostMessage`**: a reply of one says that the post was
accepted, and a reply of zero that it was refused. -/
theorem postEvent?_eq_some_iff (i : Invocation) (h : i.native.IsStandard) (x : PostEvent) :
    i.postEvent? = some x ↔
      i.native.run = Native.postMessage.run ∧ ∃ post, i.call.send = .ok post ∧
        (i.reply = .value (.int 1) ∧ x = .accepted post ∨
          i.reply = .value (.int 0) ∧ x = .refused post) := by
  constructor
  · intro event
    have posts : i.native.run = Native.postMessage.run := by
      rcases h with h | h | h
      · rw [(idle_of_not_postMessage (.inl h)).1] at event
        cases event
      · exact h
      · rw [(idle_of_not_postMessage (.inr h)).1] at event
        cases event
    refine ⟨posts, ?_⟩
    unfold postEvent? at event
    split at event
    · rename_i post v send reply
      refine ⟨post, send, ?_⟩
      rw [reply]
      split at event
      · rename_i one
        rw [one]
        exact .inl ⟨rfl, (Option.some.inj event).symm⟩
      split at event
      · rename_i zero
        rw [zero]
        exact .inr ⟨rfl, (Option.some.inj event).symm⟩
      · cases event
    · cases event
  · rintro ⟨-, post, send, ⟨reply, rfl⟩ | ⟨reply, rfl⟩⟩
    · unfold postEvent?
      rw [send, reply]
      rfl
    · unfold postEvent?
      rw [send, reply]
      rfl

end Invocation

namespace Action

/-- Fetches all operands of a call. -/
def fetchAll (positional : List Operand) (named : List NamedOperand) :
    Action (List Value × List Argument) := do
  let values ← positional.mapM fetchOperand
  return (values, ← named.mapM fetchNamed)

/-- The native function that a statement runs, if it runs one. -/
def invocation? (scope : Scope) (m : Moment) : Option Invocation :=
  match Instruction.decode m.execution.cursor with
  | (.ok (.call index _ positional named), next) =>
    match fetchAll positional named ((opened scope m).moveTo next) with
    | (.ok (values, arguments), m) =>
      (scope.environment.natives.slot index).map fun native =>
        let m := countedCall index native m
        ⟨native, seenCall scope native values arguments m, m.world⟩
    | (.error _, _) => none
  | _ => none

/-- The slot of the native function that a statement runs. -/
def slot? (scope : Scope) (m : Moment) : Option UInt8 :=
  match Instruction.decode m.execution.cursor with
  | (.ok (.call index ..), _) => (invocation? scope m).map fun _ => index
  | _ => none

/-- The function is one of the table. -/
theorem isStandard_of_invocation? {scope : Scope} (hn : scope.environment.natives.IsStandard)
    {m : Moment} {i : Invocation} (h : invocation? scope m = some i) : i.native.IsStandard := by
  unfold invocation? at h
  split at h
  · split at h
    · obtain ⟨native, slot, rfl⟩ := Option.map_eq_some_iff.mp h
      exact hn _ native slot
    · cases h
  · cases h

end Action

/-! ## What only native functions do -/

/-- The same posts wait, and the same has been counted. -/
structure Moment.Steady (m m' : Moment) : Prop where
  posts : m'.world.posts = m.world.posts
  statistics : m'.statistics = m.statistics
  nativeCalls : m'.nativeCalls = m.nativeCalls

namespace Moment.Steady

theorem refl (m : Moment) : m.Steady m := ⟨rfl, rfl, rfl⟩

theorem trans {m m' m'' : Moment} (h : m.Steady m') (h' : m'.Steady m'') : m.Steady m'' :=
  ⟨h'.posts.trans h.posts, h'.statistics.trans h.statistics, h'.nativeCalls.trans h.nativeCalls⟩

instance : Std.Refl Moment.Steady := ⟨refl⟩

instance : IsTrans Moment Moment.Steady := ⟨fun _ _ _ => trans⟩

end Moment.Steady

theorem Moment.Looked.steady {m m' : Moment} (h : m.Looked m') : m.Steady m' :=
  ⟨h.posts, h.statistics, h.nativeCalls⟩

namespace Action

/-- Whatever becomes of the action, it posts and counts nothing. -/
abbrev Steadily {α : Type} (a : Action α) : Prop := Within Moment.Steady (fun _ => True) a

namespace Steadily

variable {α : Type}

theorem reading (r : Reading α) : Steadily (Action.reading r) := fun m => by
  rw [reading_run]
  exact ⟨⟨rfl, rfl, rfl⟩, fun _ _ => trivial⟩

theorem lift (x : Except Fault α) : Steadily (liftM x) := Within.lift fun _ _ => trivial

theorem fetchOperand (o : Operand) : Steadily (Action.fetchOperand o) :=
  fun m => ⟨(Moment.Looked.fetchOperand o m).steady, fun _ _ => trivial⟩

theorem fetchNamed (n : NamedOperand) : Steadily (Action.fetchNamed n) :=
  (fetchOperand n.operand).bind fun _ => .pure _

theorem fetchAll (positional : List Operand) (named : List NamedOperand) :
    Steadily (Action.fetchAll positional named) :=
  (Within.mapM fetchOperand positional).bind fun _ =>
    (Within.mapM fetchNamed named).bind fun _ => .pure _

theorem assign (destination : Destination) (value : Value) :
    Steadily (Action.assign destination value) := by
  intro m
  obtain ⟨objects, e, -⟩ := m.world.rewritten_write m.execution.receiver m.execution.frame
    destination.place destination.index value
  rw [assign_run]
  generalize m.world.write m.execution.receiver m.execution.frame destination.place.kind
    destination.index value = outcome at e
  match outcome with
  | (.error f, w) =>
    rw [show w = _ from e]
    exact ⟨⟨rfl, rfl, rfl⟩, fun _ _ => trivial⟩
  | (.ok frame, w) =>
    rw [show w = _ from e]
    exact ⟨⟨rfl, rfl, rfl⟩, fun _ _ => trivial⟩

theorem assignIf (destination : Option Destination) (value : Value) :
    Steadily (Action.assignIf destination value) := by
  cases destination with
  | none => exact .pure _
  | some d => exact assign d value

theorem jump (target : UInt32) : Steadily (Action.jump target) := Within.get.bind fun m => by
  by_cases h : target.toNat < m.execution.codeStart
  · simp only [h, if_true]
    exact .throw trivial
  · simp only [h, if_false]
    exact reading _

theorem setLine (line : UInt32) : Steadily (Action.setLine line) :=
  Within.modify (R := Moment.Steady) fun _ => ⟨rfl, rfl, rfl⟩

/-- Performing an instruction that is no call. -/
theorem perform (scope : Scope) {i : Instruction}
    (h : ∀ index destination positional named, i ≠ .call index destination positional named) :
    Steadily (Action.perform scope i) := by
  cases i with
  | unary op destination source =>
    exact (fetchOperand _).bind fun _ => (lift _).bind fun _ => (assign _ _).bind fun _ => .pure _
  | binary op destination left right =>
    exact (fetchOperand _).bind fun _ => (fetchOperand _).bind fun _ => (lift _).bind fun _ =>
      (assign _ _).bind fun _ => .pure _
  | goto target => exact (jump target).bind fun _ => .pure _
  | gotoIf wanted target condition =>
    refine (fetchOperand _).bind fun v => Within.bind ?_ fun _ => .pure _
    unfold jumpIf
    split
    · exact jump target
    · exact .pure _
  | call index destination positional named => exact absurd rfl (h _ _ _ _)
  | handOver => exact .pure _
  | leave value => exact (fetchOperand _).bind fun _ => .pure _
  | line number => exact (setLine number).bind fun _ => .pure _

end Steadily

/-- A call performs its fetches and then what remains of it. -/
theorem perform_call (scope : Scope) (index : UInt8) (destination : Option Destination)
    (positional : List Operand) (named : List NamedOperand) :
    perform scope (.call index destination positional named) =
      fetchAll positional named >>= fun (values, arguments) =>
        conclude scope index destination values arguments := by
  simp only [perform, fetchAll, bind_assoc, pure_bind]

/-- What remains of a call counts and runs the function in its slot. -/
theorem steady_conclude (scope : Scope) (index : UInt8) (destination : Option Destination)
    (values : List Value) (arguments : List Argument) (m : Moment) :
    match scope.environment.natives.slot index with
    | none => m.Steady (conclude scope index destination values arguments m).2
    | some native =>
      let counted := countedCall index native m
      ({ counted with
        world := (native.run (seenCall scope native values arguments counted) counted.world).2 } :
          Moment).Steady (conclude scope index destination values arguments m).2 := by
  unfold conclude
  cases scope.environment.natives.slot index with
  | none => exact .refl m
  | some native =>
    dsimp only
    rw [bind_of_ok (invoke_eq scope index native values arguments m)]
    generalize native.run (seenCall scope native values arguments (countedCall index native m))
      (countedCall index native m).world = outcome
    obtain ⟨reply, w⟩ := outcome
    cases reply with
    | value v => exact (((Steadily.assignIf destination v).bind fun _ => .pure _) _).1
    | fault f => exact .refl _
    | send s => exact .refl _

/-- **A statement posts and counts nothing but through the native function that it runs.**  If it
runs one, the call is counted under its slot, and then the function runs. -/
theorem invocation?_cases (scope : Scope) (m : Moment) :
    (invocation? scope m = none ∧ slot? scope m = none ∧ m.Steady (statement scope m).2) ∨
      ∃ index i before, invocation? scope m = some i ∧ slot? scope m = some index ∧
        m.Steady before ∧ i.world = (countedCall index i.native before).world ∧
        ({ countedCall index i.native before with world := i.after } : Moment).Steady
          (statement scope m).2 := by
  have opened := (Moment.Looked.opened scope m).steady
  unfold slot? invocation?
  generalize decoded : Instruction.decode m.execution.cursor = outcome
  match outcome with
  | (.error f, c) =>
    obtain ⟨g, after, place, fails, looked, -⟩ := statement_fails scope decoded
    rw [fails]
    exact .inl ⟨rfl, rfl, looked.posts, looked.statistics, looked.nativeCalls⟩
  | (.ok i, next) =>
    obtain ⟨place, -, same, -⟩ := (statement_agrees_of_ok scope decoded).exists_place
    rw [same]
    have moved {before after : Moment} (h : before.Steady after) :
        before.Steady (after.moveTo place) := ⟨h.posts, h.statistics, h.nativeCalls⟩
    have reached : m.Steady ((Action.opened scope m).moveTo next) :=
      ⟨opened.posts, opened.statistics, opened.nativeCalls⟩
    cases i with
    | call index destination positional named =>
      have fetched := (Steadily.fetchAll positional named) ((Action.opened scope m).moveTo next)
      rw [perform_call]
      dsimp only
      generalize run : fetchAll positional named ((Action.opened scope m).moveTo next) = result
        at fetched
      match result with
      | (.error f, m₁) =>
        rw [bind_of_error run]
        exact .inl ⟨rfl, rfl, moved (reached.trans fetched.1)⟩
      | (.ok (values, arguments), m₁) =>
        have before : m.Steady m₁ := reached.trans fetched.1
        have concluded := steady_conclude scope index destination values arguments m₁
        rw [bind_of_ok run]
        dsimp only
        cases slot : scope.environment.natives.slot index with
        | none =>
          rw [slot] at concluded
          exact .inl ⟨rfl, rfl, moved (before.trans concluded)⟩
        | some native =>
          rw [slot] at concluded
          exact .inr ⟨index, _, m₁, rfl, rfl, before, rfl, moved concluded⟩
    | _ =>
      refine .inl ⟨rfl, rfl, moved (reached.trans ?_)⟩
      exact ((Steadily.perform scope (fun _ _ _ _ e => by cases e)) _).1

/-- **What a statement does to the posts that wait** is what the native function does that it runs.
If it runs none, the same posts wait as before. -/
theorem posts_statement (scope : Scope) (m : Moment) :
    (∀ i, invocation? scope m = some i → i.world.posts = m.world.posts ∧
      (statement scope m).2.world.posts = i.after.posts) ∧
    (invocation? scope m = none → (statement scope m).2.world.posts = m.world.posts) := by
  rcases invocation?_cases scope m with ⟨none, -, steady⟩ |
    ⟨index, i, before, found, -, steady, world, after⟩
  · rw [none]
    exact ⟨fun i h => (by cases h), fun _ => steady.posts⟩
  · rw [found]
    refine ⟨fun j h => ?_, fun h => (by cases h)⟩
    cases h
    rw [world]
    exact ⟨steady.posts, after.posts⟩

end Action

end MessageMachine
