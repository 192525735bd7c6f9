import MessageMachine.Proofs.Code.Spans
import MessageMachine.Proofs.Statement.Resolving

/-!
# Failing without a trace

A statement may fail at many points: between the bytes of its instruction, at an operand, in
an operator, at its destination.  Wherever it fails, nobody can tell from the world that it
was tried, unless a native function was run: at most the class cache of the receiver and the
journal are different (`Moment.Looked`).  There are two reasons.  A destination is written
last of all, so whatever fails before has only looked at operands; and a write that fails
writes nothing (`Action.failing_perform`).

A native function is run by a call that is *ready* (`Moment.Ready`).  What this takes can be
seen in the code and in the moment before the statement: all bytes of the call are there, its
mode and both of its counts are valid, every operand resolves, and the slot is filled.  A
statement that is no ready call runs no function (`Action.statement_of_not_ready`), and a
ready call runs its function once, with the values of its operands in the order in which they
are written (`Action.statement_of_ready`).

Counts are refused as soon as they are read, whatever stands behind them.
-/

namespace MessageMachine

/-! ## Failures -/

section

variable {σ α β : Type} {R : σ → σ → Prop}

/-- If the computation fails, the states before and after it are related. -/
def Failing (R : σ → σ → Prop) (a : ExceptT Fault (StateM σ) α) : Prop :=
  ∀ s f s', a s = (.error f, s') → R s s'

namespace Failing

theorem pure (a : α) : Failing R (Pure.pure a : ExceptT Fault (StateM σ) α) := by
  intro s f s' run
  cases run

/-- What always happens also happens when the computation fails. -/
theorem bind [IsTrans σ R] {P : Fault → Prop} {a : ExceptT Fault (StateM σ) α}
    {k : α → ExceptT Fault (StateM σ) β} (ha : Within R P a) (hk : ∀ x, Failing R (k x)) :
    Failing R (a >>= k) := by
  intro s f s' run
  rcases error_of_bind run with run | ⟨x, s₁, run₁, run₂⟩
  · exact (ha.of_run run).1
  · exact trans_of R (ha.of_run run₁).1 (hk x s₁ f s' run₂)

/-- What cannot fail any more does not matter. -/
theorem bind_pure {a : ExceptT Fault (StateM σ) α} (ha : Failing R a) (g : α → β) :
    Failing R (a >>= fun x => Pure.pure (g x)) := by
  intro s f s' run
  rcases error_of_bind run with run | ⟨x, s₁, run₁, run₂⟩
  · exact ha s f s' run
  · cases run₂

end Failing

end

namespace Action

/-- A destination that cannot be written is not written. -/
theorem failing_assign (destination : Destination) (value : Value) :
    Failing Moment.Looked (assign destination value) := by
  intro m f m' run
  have unwritten : ∀ g w, m.world.write m.execution.receiver m.execution.frame
      destination.place.kind destination.index value = (.error g, w) → w = m.world := by
    intro g w failed
    obtain ⟨_ | _, index⟩ := destination
    · exact (congrArg Prod.snd failed).symm
    · dsimp only [World.write, Place.kind] at failed
      split at failed
      · split at failed
        · cases failed
        · cases failed
          rfl
      · cases failed
        rfl
  rw [assign_run] at run
  generalize m.world.write m.execution.receiver m.execution.frame destination.place.kind
    destination.index value = outcome at run unwritten
  match outcome with
  | (.ok frame, w) => cases run
  | (.error g, w) =>
    cases run
    rw [unwritten f w rfl]
    exact .refl m

/-- A branch that cannot be taken is not taken. -/
theorem failing_jump (target : UInt32) : Failing Moment.Looked (jump target) := by
  intro m f m' run
  have jump_run : jump target m =
      (if target.toNat < m.execution.codeStart
        then throw (.branchOutOfRange target.toNat m.execution.cursor.code.size)
        else reading (Cursor.seek target.toNat) : Action Unit) m := rfl
  rw [jump_run] at run
  split at run
  · cases run
    exact .refl m
  · rw [reading_run, Cursor.seek_run] at run
    split at run
    · cases run
    · cases run
      exact .refl m

/-- **Performing an instruction that is no call** writes all of it or nothing. -/
theorem failing_perform (scope : Scope) {i : Instruction}
    (h : ∀ index destination positional named, i ≠ .call index destination positional named) :
    Failing Moment.Looked (perform scope i) := by
  have fetch (o : Operand) := Moment.Looked.within_fetchOperand o
  have lift {α : Type} (x : Except Fault α) :
      Within Moment.Looked (fun _ => True) (liftM x : Action α) := Within.lift fun _ _ => trivial
  cases i with
  | unary op destination source =>
    exact .bind (fetch _) fun _ => .bind (lift _) fun _ => (failing_assign _ _).bind_pure _
  | binary op destination left right =>
    exact .bind (fetch _) fun _ => .bind (fetch _) fun _ => .bind (lift _) fun _ =>
      (failing_assign _ _).bind_pure _
  | goto target => exact (failing_jump target).bind_pure _
  | gotoIf wanted target condition =>
    refine .bind (fetch _) fun v => Failing.bind_pure ?_ _
    unfold jumpIf
    split
    · exact failing_jump target
    · exact .pure _
  | call index destination positional named => exact absurd rfl (h _ _ _ _)
  | handOver => exact .pure _
  | leave value => exact .bind (fetch _) fun _ => .pure _
  | line number =>
    have noted : Failing Moment.Looked (setLine number) := by
      intro m f m' run
      cases run
    exact noted.bind_pure _

end Action

/-! ## Calls that are ready -/

/-- A call of a native function: its slot and the function, the destination of its value, the values
of its operands, and the cursor behind it. -/
structure ReadyCall where
  index : UInt8
  native : Native
  destination : Option Destination
  values : List Value
  arguments : List Argument
  next : Cursor

/-- The call stands at the cursor, and nothing is in its way: its opcode has a valid mode, both
counts are within their limits, all bytes are there, all operands resolve to its values, and its
function is in the table. -/
inductive Moment.Ready (natives : NativeTable) (m : Moment) : ReadyCall → Prop
  | intro {b index : UInt8} {native : Native} {destination : Option Destination}
      {positional : List Operand} {named : List NamedOperand} {values : List Value}
      {arguments : List Argument} {next : Cursor}
      (opcode : Opcode.IsCall b (destination.map Destination.place))
      (positional_le : positional.length ≤ Limits.positional)
      (named_le : named.length ≤ Limits.named)
      (bytes : m.execution.cursor.Spans
        (Assembly.callHead b index destination (.ofNat positional.length) ++
          (Assembly.callMiddle positional (.ofNat named.length) ++
            named.flatMap Assembly.namedOperand)) next)
      (resolved : List.Forall₂ m.Resolves positional values)
      (resolvedNamed : List.Forall₂ m.ResolvesNamed named arguments)
      (slot : natives.slot index = some native) :
      m.Ready natives ⟨index, native, destination, values, arguments, next⟩

/-- A ready call can be decoded. -/
theorem Moment.Ready.decodes {natives : NativeTable} {m : Moment} {k : ReadyCall}
    (ready : m.Ready natives k) : ∃ positional named,
      Instruction.decode m.execution.cursor =
        (.ok (.call k.index k.destination positional named), k.next) := by
  obtain ⟨opcode, fits, fits', bytes, -, -, -⟩ := ready
  exact ⟨_, _, Instruction.decode_call_iff.mpr ⟨_, opcode, fits, fits', bytes⟩⟩

namespace Action

/-- Goes on after a native function has replied. -/
def follow (destination : Option Destination) : Reply → Action Next
  | .value value => do
    assignIf destination value
    return .proceed
  | .fault f => throw f
  | .send send => return .await send destination

theorem conclude_run (scope : Scope) {index : UInt8} {native : Native}
    (slot : scope.environment.natives.slot index = some native) (destination : Option Destination)
    (values : List Value) (arguments : List Argument) (m : Moment) :
    let counted := countedCall index native m
    let outcome := native.run (seenCall scope native values arguments counted) counted.world
    conclude scope index destination values arguments m =
      follow destination outcome.1 { counted with world := outcome.2 } := by
  intro counted outcome
  have conclude_eq : conclude scope index destination values arguments =
      invoke scope index native values arguments >>= follow destination := by
    unfold conclude
    rw [slot]
    rfl
  rw [conclude_eq, bind_of_ok (invoke_eq scope index native values arguments m)]

/-- A reading that fetches in turns, when everything can be read and then fetched. -/
theorem collectList_fetch_run {α β : Type} {r : Reading α} {g : α → Action β} (hr : Forward r)
    (hg : ∀ a, (g a).Placeless) {n : Nat} {m m' : Moment} {c : Cursor} {as : List α} {bs : List β}
    (read : collectList r n m.execution.cursor = (.ok as, c))
    (fetched : as.mapM g (m.moveTo c) = (.ok bs, m')) :
    collectList (reading r >>= g) n m = (.ok bs, m') := by
  have code := (hr.collectList n).code_of_run read
  have agrees := bind_agrees_of_ok (k := pure) (l := pure) hr hg read code fun _ _ => .refl _
  rw [bind_pure, bind_pure, fetched] at agrees
  obtain ⟨place, -, same, stays⟩ := agrees.exists_place
  rw [same, stays bs rfl]
  rfl

theorem within_fetchAll (positional : List Operand) (named : List NamedOperand) :
    Within Moment.Looked (fun _ => True) (fetchAll positional named) :=
  (Within.mapM Moment.Looked.within_fetchOperand positional).bind fun _ =>
    (Within.mapM Moment.Looked.within_fetchNamed named).bind fun _ => .pure _

/-- A statement whose opcode is that of a call executes the call behind it. -/
theorem statement_of_isCall (scope : Scope) {m : Moment} {b : UInt8} {place : Option Place}
    {bytes : List UInt8} {next : Cursor} (opcode : Opcode.IsCall b place)
    (spans : m.execution.cursor.Spans (b :: bytes) next) :
    m.execution.cursor.behindOpcode.Spans bytes next ∧
      statement scope m =
        call scope (.ofByte b) ((opened scope m).moveTo m.execution.cursor.behindOpcode) := by
  have found : m.execution.cursor.opcode? = some (.ofByte b, .call) := by
    rw [Cursor.opcode?, spans.here]
    exact congrArg (Option.map _) opcode.1
  obtain ⟨mid, first, others⟩ := Cursor.spans_append.mp
    (show m.execution.cursor.Spans ([b] ++ bytes) next from spans)
  have behind : mid = m.execution.cursor.behindOpcode := by
    obtain ⟨before, after, start, rfl⟩ := first
    rw [start]
    rfl
  exact ⟨behind ▸ others, (statement_of_found scope found).2⟩

/-- A call fetches its positional operands, and then reads the count of the named ones. -/
theorem call_positional_run (scope : Scope) {opcode : Opcode} {m : Moment} {index : UInt8}
    {destination : Option Destination} {positional : List Operand} {values : List Value}
    {c₁ c₂ : Cursor}
    (valid : assignMode opcode.source₁ = .ok (destination.map Destination.place))
    (fits : positional.length ≤ Limits.positional)
    (head : m.execution.cursor.Spans
      (index :: (Assembly.indexBytes destination ++ [UInt8.ofNat positional.length])) c₁)
    (operands : c₁.Spans (positional.flatMap Assembly.taggedOperand) c₂)
    (resolved : List.Forall₂ m.Resolves positional values) :
    ∃ m₁, (m.moveTo c₂).Looked m₁ ∧ m.Concurs m₁ ∧
      call scope opcode m =
        (reading namedCount >>= fun count =>
          collectList (reading NamedOperand.decode >>= fetchNamed) count >>= fun named =>
            conclude scope index destination values named) m₁ := by
  have read := head.run (Instruction.reads_decodeCallHead index valid fits)
  have listed := operands.run (Instruction.reads_collectList Operand.reads_tagged positional)
  have resolved : List.Forall₂ (m.moveTo c₂).Resolves positional values := resolved
  obtain ⟨m₁, fetched, looked, concurs⟩ := mapM_fetchOperand_of_resolves resolved
  have collected := collectList_fetch_run (m := m.moveTo c₁) Forward.taggedOperand
    placeless_fetchOperand listed fetched
  refine ⟨m₁, looked, concurs, ?_⟩
  rw [call_eq, bind_of_ok (reading_of_run read)]
  exact bind_of_ok collected

variable (scope : Scope) {m : Moment}

/-- **A count of positional operands above the limit** is refused before any operand is read. -/
theorem statement_of_positional_lt {b index count : UInt8} {destination : Option Destination}
    {stop : Cursor} (opcode : Opcode.IsCall b (destination.map Destination.place))
    (bytes : m.execution.cursor.Spans (Assembly.callHead b index destination count) stop)
    (above : Limits.positional < count.toNat) :
    statement scope m =
      (.error (.tooManyPositional count.toNat), (opened scope m).moveTo stop) := by
  obtain ⟨head, run⟩ := statement_of_isCall scope opcode bytes
  have refused := Instruction.decodeCallHead_of_lt opcode.2 head above
  have stopped :=
    reading_of_run (m := (opened scope m).moveTo m.execution.cursor.behindOpcode) refused
  rw [run, call_eq, bind_of_error stopped]
  rfl

/-- **A count of named operands above the limit** is refused before any of these is read. -/
theorem statement_of_named_lt {b index count : UInt8} {destination : Option Destination}
    {positional : List Operand} {values : List Value} {stop : Cursor}
    (opcode : Opcode.IsCall b (destination.map Destination.place))
    (fits : positional.length ≤ Limits.positional)
    (bytes : m.execution.cursor.Spans
      (Assembly.callHead b index destination (.ofNat positional.length) ++
        Assembly.callMiddle positional count) stop)
    (resolved : List.Forall₂ m.Resolves positional values)
    (above : Limits.named < count.toNat) :
    ∃ m', (m.moveTo stop).Looked m' ∧
      statement scope m = (.error (.tooManyNamed count.toNat), m') := by
  obtain ⟨c₁, head, middle⟩ := Cursor.spans_append.mp bytes
  obtain ⟨c₂, operands, last⟩ := Cursor.spans_append.mp middle
  obtain ⟨head, run⟩ := statement_of_isCall scope opcode head
  rw [← (Moment.concurs_opened scope m).resolves] at resolved
  obtain ⟨m₁, looked, -, call⟩ := call_positional_run scope
    (m := (opened scope m).moveTo m.execution.cursor.behindOpcode) opcode.2 fits head operands
    resolved
  have place : m₁.execution.cursor = c₂ := congrArg Execution.cursor looked.execution
  have refused : namedCount m₁.execution.cursor = _ := limitedCount_of_lt (place ▸ last) above
  refine ⟨m₁.moveTo stop, ?_, ?_⟩
  · exact ((Moment.Looked.opened scope m).moveTo stop).trans (looked.moveTo stop)
  · rw [run, call, bind_of_error (reading_of_run refused)]

/-- **A ready call runs its function**, once, with the values of its operands in the order in which
they are written. -/
theorem statement_of_ready {k : ReadyCall} (ready : m.Ready scope.environment.natives k) :
    ∃ before, (m.moveTo k.next).Looked before ∧
      let counted := countedCall k.index k.native before
      let outcome :=
        k.native.run (seenCall scope k.native k.values k.arguments counted) counted.world
      statement scope m = follow k.destination outcome.1 { counted with world := outcome.2 } := by
  obtain @⟨b, index, native, destination, positional, named, values, arguments, next, opcode, fits,
    fits', bytes, resolved, resolvedNamed, slot⟩ := ready
  obtain ⟨c₁, head, others⟩ := Cursor.spans_append.mp bytes
  obtain ⟨c₃, middle, last⟩ := Cursor.spans_append.mp others
  obtain ⟨c₂, operands, count⟩ := Cursor.spans_append.mp middle
  obtain ⟨head, run⟩ := statement_of_isCall scope opcode head
  rw [← (Moment.concurs_opened scope m).resolves] at resolved
  rw [← (Moment.concurs_opened scope m).resolvesNamed] at resolvedNamed
  obtain ⟨m₁, looked, concurs, call⟩ := call_positional_run scope
    (m := (opened scope m).moveTo m.execution.cursor.behindOpcode) opcode.2 fits head operands
    resolved
  have place : m₁.execution.cursor = c₂ := congrArg Execution.cursor looked.execution
  have counted : namedCount m₁.execution.cursor = _ := (place ▸ count).run (reads_namedCount fits')
  have listed := last.run (Instruction.reads_collectList NamedOperand.reads named)
  have resolvedNamed : List.Forall₂ (m₁.moveTo next).ResolvesNamed named arguments :=
    concurs.resolvesNamed ▸ resolvedNamed
  obtain ⟨m₂, fetched, looked'⟩ := mapM_fetchNamed_of_resolves resolvedNamed
  have collected := collectList_fetch_run (m := m₁.moveTo c₃) Forward.namedOperand
    placeless_fetchNamed listed fetched
  refine ⟨m₂, ?_, ?_⟩
  · exact (((Moment.Looked.opened scope m).moveTo next).trans (looked.moveTo next)).trans looked'
  · rw [run, call, bind_of_ok (reading_of_run counted), bind_of_ok collected]
    exact conclude_run scope slot destination values arguments m₂

/-- A call that has been read fails before its function is run, if an operand does not resolve or
there is no function in its slot. -/
theorem perform_call_of_not_ready {index : UInt8} (destination : Option Destination)
    {positional : List Operand} {named : List NamedOperand}
    (unready : ∀ native values arguments, List.Forall₂ m.Resolves positional values →
      List.Forall₂ m.ResolvesNamed named arguments →
        scope.environment.natives.slot index ≠ some native) :
    ∃ f m', perform scope (.call index destination positional named) m = (.error f, m') ∧
      m.Looked m' := by
  have looked := (within_fetchAll positional named m).1
  have resolved := fetchAll_eq_ok_iff positional named (m := m)
  rw [perform_call]
  generalize run : fetchAll positional named m = outcome at looked resolved
  match outcome with
  | (.error f, m') => exact ⟨f, m', bind_of_error run, looked⟩
  | (.ok (values, arguments), m') =>
    obtain ⟨all, allNamed⟩ := (resolved values arguments).mp rfl
    have missing : scope.environment.natives.slot index = none :=
      Option.eq_none_iff_forall_ne_some.mpr fun native =>
        unready native values arguments all allNamed
    refine ⟨.unknownNative index, m', ?_, looked⟩
    rw [bind_of_ok run]
    dsimp only
    unfold conclude
    rw [missing]
    rfl

/-- **A statement that is no ready call** posts and counts nothing.  If it fails, at most caches,
the journal and its own place are different. -/
theorem statement_of_not_ready (unready : ∀ k, ¬ m.Ready scope.environment.natives k) :
    m.Steady (statement scope m).2 ∧
      ∀ f, (statement scope m).1 = .error f →
        ∃ place, (m.moveTo place).Looked (statement scope m).2 := by
  have opened := Moment.Looked.opened scope m
  have concurs := Moment.concurs_opened scope m
  have failed {f : Fault} {after : Moment} {place : Cursor} (looked : (m.moveTo place).Looked after)
      (run : statement scope m = (.error f, after)) :
      m.Steady (statement scope m).2 ∧
        ∀ f, (statement scope m).1 = .error f →
          ∃ place, (m.moveTo place).Looked (statement scope m).2 := by
    rw [run]
    exact ⟨⟨looked.posts, looked.statistics, looked.nativeCalls⟩, fun _ _ => ⟨place, looked⟩⟩
  generalize decoded : Instruction.decode m.execution.cursor = outcome
  match outcome with
  | (.error f, c) =>
    obtain ⟨g, after, place, run, looked, -⟩ := statement_fails scope decoded
    exact failed looked run
  | (.ok i, next) =>
    obtain ⟨place, -, run, -⟩ := (statement_agrees_of_ok scope decoded).exists_place
    by_cases isCall : ∃ index destination positional named,
        i = .call index destination positional named
    · obtain ⟨index, destination, positional, named, rfl⟩ := isCall
      obtain ⟨b, opcode, fits, fits', bytes⟩ := Instruction.decode_call_iff.mp decoded
      obtain ⟨f, after, performed, looked⟩ := perform_call_of_not_ready scope
        (m := (Action.opened scope m).moveTo next) destination
        fun native values arguments resolved resolvedNamed slot =>
          unready ⟨index, native, destination, values, arguments, next⟩
            (.intro opcode fits fits' bytes (concurs.resolves ▸ resolved)
              (concurs.resolvesNamed ▸ resolvedNamed) slot)
      rw [performed] at run
      exact failed ((opened.moveTo place).trans (looked.moveTo place)) run
    · have other : ∀ index destination positional named,
          i ≠ .call index destination positional named := by
        intro index destination positional named e
        exact isCall ⟨index, destination, positional, named, e⟩
      have steady := (Steadily.perform scope other ((Action.opened scope m).moveTo next)).1
      rw [run]
      refine ⟨⟨steady.posts.trans opened.posts, steady.statistics.trans opened.statistics,
        steady.nativeCalls.trans opened.nativeCalls⟩, fun f ends => ⟨place, ?_⟩⟩
      have looked := failing_perform scope other _ f _ (Prod.ext ends rfl)
      exact (opened.moveTo place).trans (looked.moveTo place)

/-- What follows a reply posts and counts nothing. -/
theorem steadily_follow (destination : Option Destination) (reply : Reply) :
    Steadily (follow destination reply) := by
  cases reply with
  | value v => exact (Steadily.assignIf destination v).bind fun _ => .pure _
  | fault f => exact .throw trivial
  | send s => exact .pure _

/-- A call is never the end of a body. -/
theorem gives_follow (destination : Option Destination) (reply : Reply) :
    Gives (fun next => ∀ ending, next ≠ .leave ending) (follow destination reply) := by
  cases reply with
  | value v => exact .bind fun _ => .pure nofun
  | fault f =>
    intro m next m' run
    cases run
  | send s => exact .pure nofun

end Action

end MessageMachine
