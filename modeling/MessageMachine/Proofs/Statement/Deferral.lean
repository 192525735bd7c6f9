import MessageMachine.Proofs.Statement.Perform

/-!
# Putting off fetches

A call fetches each operand as soon as it is read, before the next one is read.  Decoding reads them
all first.  This module shows that the difference does not matter: fetching an operand depends on
nothing that reading changes and changes nothing that reading depends on, so all fetches may be put
off until the call has been read (`Action.collectList_bind_agrees`).

Two things can be told apart all the same, and both are stated as they are.  A call that cannot be
read to its end fails for an operand that was read before, if fetching that one fails; these
operands are `Instruction.callParameters`.  And a call that fails stops in the middle of its code,
not behind it; `Agrees` leaves the place open for executions that have failed.
-/

namespace MessageMachine

/-! ## Moving the cursor -/

/-- The moment with its execution at another place. -/
def Moment.moveTo (m : Moment) (c : Cursor) : Moment :=
  { m with execution := { m.execution with cursor := c } }

namespace Moment

@[simp] theorem moveTo_cursor (m : Moment) : m.moveTo m.execution.cursor = m := rfl

end Moment

/-- The same outcome and the same moment; only a failed execution may have stopped at another place
of its code. -/
inductive Agrees {α : Type} :
    Except Fault α × Moment → Except Fault α × Moment → Prop
  | ok (a : α) (m : Moment) : Agrees (.ok a, m) (.ok a, m)
  | error (f : Fault) (m : Moment) (c : Cursor) (code : c.code = m.execution.cursor.code) :
    Agrees (.error f, m.moveTo c) (.error f, m)

theorem Agrees.refl {α : Type} (x : Except Fault α × Moment) : Agrees x x := by
  match x with
  | (.ok a, m) => exact .ok a m
  | (.error f, m) => exact .error f m m.execution.cursor rfl

/-- What agrees is the same but for the place where a failed execution has stopped. -/
theorem Agrees.exists_place {α : Type} {x y : Except Fault α × Moment} (h : Agrees x y) :
    ∃ place : Cursor, place.code = y.2.execution.cursor.code ∧ x = (y.1, y.2.moveTo place) ∧
      ∀ a, y.1 = .ok a → place = y.2.execution.cursor := by
  cases h with
  | ok a m => exact ⟨m.execution.cursor, rfl, rfl, fun _ _ => rfl⟩
  | error f m c code => exact ⟨c, code, rfl, fun _ h => by cases h⟩

namespace Action

variable {α β γ : Type}

/-- The action neither looks at the place of the execution nor changes it. -/
def Placeless (a : Action α) : Prop := ∀ m c, a (m.moveTo c) = ((a m).1, (a m).2.moveTo c)

theorem Placeless.pure (a : α) : Placeless (Pure.pure a : Action α) := fun _ _ => rfl

theorem Placeless.bind {a : Action α} {k : α → Action β} (ha : a.Placeless)
    (hk : ∀ x, (k x).Placeless) : Placeless (a >>= k) := by
  intro m c
  have moved := ha m c
  generalize run : a m = outcome at moved
  match outcome with
  | (.ok x, m') => rw [bind_of_ok run, bind_of_ok moved, hk x m' c]
  | (.error f, m') => rw [bind_of_error run, bind_of_error moved]

theorem placeless_fetchOperand (o : Operand) : (fetchOperand o).Placeless := by
  intro m c
  rw [fetchOperand, fetch_run, fetch_run]
  rfl

theorem placeless_fetchNamed (n : NamedOperand) : (fetchNamed n).Placeless :=
  (placeless_fetchOperand n.operand).bind fun _ => .pure _

/-- **A placeless action may be done at another place**, when what follows it at one place agrees
with what follows it at the other. -/
theorem Placeless.bind_agrees {g : Action α} (hg : g.Placeless) {k l : α → Action β} {m : Moment}
    {c : Cursor} (code : c.code = m.execution.cursor.code)
    (h : ∀ a (m' : Moment), Agrees (k a (m'.moveTo m.execution.cursor)) (l a (m'.moveTo c))) :
    Agrees ((g >>= k) m) ((g >>= l) (m.moveTo c)) := by
  have moved := hg m c
  have stayed := hg m m.execution.cursor
  rw [Moment.moveTo_cursor] at stayed
  generalize run : g m = outcome at moved stayed
  match outcome with
  | (.ok a, m') =>
    have place : m' = m'.moveTo m.execution.cursor := congrArg Prod.snd stayed
    rw [bind_of_ok run, bind_of_ok moved, place]
    exact h a m'
  | (.error f, m') =>
    have place : m' = m'.moveTo m.execution.cursor := congrArg Prod.snd stayed
    rw [bind_of_error run, bind_of_error moved, place]
    exact .error f (m'.moveTo c) m.execution.cursor code.symm

end Action

/-! ## Reading and fetching several operands -/

section Gather

variable {α β γ : Type}

/-- `collect`, when the number of the results does not matter any more. -/
def collectList {m : Type → Type} [Monad m] (act : m α) (n : Nat) : m (List α) :=
  Subtype.val <$> collect act n

theorem collectList_zero {m : Type → Type} [Monad m] [LawfulMonad m] (act : m α) :
    collectList act 0 = pure [] := by
  rw [collectList, collect, map_pure]

theorem collectList_succ {m : Type → Type} [Monad m] [LawfulMonad m] (act : m α) (n : Nat) :
    collectList act (n + 1) =
      act >>= fun x => collectList act n >>= fun xs => pure (x :: xs) := by
  simp only [collectList, collect, map_bind, map_pure, bind_map_left]

/-- What a reading takes off a cursor in `n` goes: all that it reads, the fault that stops it before
it is done, if one does, and where it stops. -/
def gather (r : Reading α) : Nat → Cursor → List α × Option Fault × Cursor
  | 0, c => ([], none, c)
  | n + 1, c =>
    match r c with
    | (.ok a, c) => (a :: (gather r n c).1, (gather r n c).2)
    | (.error f, c) => ([], some f, c)

/-- Goes on with a value, unless there was a fault. -/
def stopWith (stop : Option Fault) (a : α) : Action α :=
  match stop with
  | none => return a
  | some f => throw f

theorem stopWith_map_bind (stop : Option Fault) (a : α) (f : α → β) (k : β → Action γ) :
    (stopWith stop (f a) >>= k) = stopWith stop a >>= fun a => k (f a) := by
  cases stop <;> rfl

theorem collectList_eq_gather (r : Reading α) (n : Nat) (c : Cursor) :
    collectList r n c =
      match gather r n c with
      | (as, none, c) => (.ok as, c)
      | (_, some f, c) => (.error f, c) := by
  induction n generalizing c with
  | zero => rfl
  | succ n ih =>
    rw [collectList_succ, gather]
    generalize run : r c = outcome
    match outcome with
    | (.error f, c₁) => rw [bind_of_error run]
    | (.ok a, c₁) =>
      rw [bind_of_ok run]
      dsimp only
      have h := ih c₁
      generalize gather r n c₁ = gathered at h
      match gathered with
      | (as, none, c₂) => rw [bind_of_ok h]; rfl
      | (as, some f, c₂) => rw [bind_of_error h]

/-- A reading that has been worked out has stayed in the code. -/
theorem Forward.code_of_run {r : Reading α} (hr : Forward r) {c c' : Cursor} {x : Except Fault α}
    (run : r c = (x, c')) : c'.code = c.code := by
  have h := (hr c).1
  rw [run] at h
  exact h

theorem Forward.collectList {r : Reading α} (hr : Forward r) (n : Nat) :
    Forward (MessageMachine.collectList r n) :=
  (hr.collect n).bind fun _ => .pure _

theorem gather_of_ok {r : Reading α} {n : Nat} {c c' : Cursor} {as : List α}
    (h : collectList r n c = (.ok as, c')) : gather r n c = (as, none, c') := by
  rw [collectList_eq_gather] at h
  split at h
  · cases h
    assumption
  · cases h

theorem gather_of_error {r : Reading α} {n : Nat} {c c' : Cursor} {f : Fault}
    (h : collectList r n c = (.error f, c')) : ∃ as, gather r n c = (as, some f, c') := by
  rw [collectList_eq_gather] at h
  split at h
  · cases h
  · cases h
    exact ⟨_, ‹_›⟩

/-- **The fetches may wait.**  To read and fetch in turns is to read first and then to fetch
what was read, at whatever place; and a fault of the reading comes after the fetches of what
was read before. -/
theorem Action.collectList_bind_agrees {r : Reading α} (hr : Forward r) {g : α → Action β}
    (hg : ∀ a, (g a).Placeless) (n : Nat) {m : Moment} {c : Cursor} {k l : List β → Action γ}
    (code : c.code = m.execution.cursor.code)
    (h : ∀ bs (m' : Moment), Agrees
      ((stopWith (gather r n m.execution.cursor).2.1 bs >>= k)
        (m'.moveTo (gather r n m.execution.cursor).2.2))
      (l bs (m'.moveTo c))) :
    Agrees ((collectList (reading r >>= g) n >>= k) m)
      (((gather r n m.execution.cursor).1.mapM g >>= l) (m.moveTo c)) := by
  induction n generalizing m k l with
  | zero =>
    rw [collectList_zero]
    exact h [] m
  | succ n ih =>
    rw [collectList_succ]
    have read := reading_run r m
    have codeRead := (hr m.execution.cursor).1
    rw [gather] at h ⊢
    generalize r m.execution.cursor = outcome at read codeRead h
    match outcome with
    | (.error f, c₁) =>
      simp only [bind_assoc]
      rw [bind_of_error read]
      exact h [] m
    | (.ok a, c₁) =>
      simp only [bind_assoc, List.mapM_cons, pure_bind]
      rw [bind_of_ok read]
      refine (hg a).bind_agrees (m := m.moveTo c₁) (code.trans codeRead.symm) fun b m' => ?_
      refine ih (m := m'.moveTo c₁) (code.trans codeRead.symm) fun bs m'' => ?_
      have step := h (b :: bs) m''
      rw [stopWith_map_bind _ bs (b :: ·)] at step
      exact step

namespace Action

variable {r : Reading α} {g : α → Action β} {n : Nat} {m : Moment} {c c' : Cursor}
  {k l : List β → Action γ}

/-- The fetches wait for a reading that succeeds. -/
theorem bind_agrees_of_ok (hr : Forward r) (hg : ∀ a, (g a).Placeless) {as : List α}
    (read : collectList r n m.execution.cursor = (.ok as, c'))
    (code : c.code = m.execution.cursor.code)
    (h : ∀ bs (m' : Moment), Agrees (k bs (m'.moveTo c')) (l bs (m'.moveTo c))) :
    Agrees ((collectList (reading r >>= g) n >>= k) m) ((as.mapM g >>= l) (m.moveTo c)) := by
  have gathered := gather_of_ok read
  have agrees := collectList_bind_agrees (k := k) (l := l) hr hg n code
  rw [gathered] at agrees
  exact agrees h

/-- The fetches of what was read wait for a reading that fails. -/
theorem bind_agrees_of_error (hr : Forward r) (hg : ∀ a, (g a).Placeless) {as : List α} {f : Fault}
    (gathered : gather r n m.execution.cursor = (as, some f, c'))
    (code : c.code = m.execution.cursor.code)
    (h : ∀ bs (m' : Moment), Agrees (.error f, m'.moveTo c') (l bs (m'.moveTo c))) :
    Agrees ((collectList (reading r >>= g) n >>= k) m) ((as.mapM g >>= l) (m.moveTo c)) := by
  have agrees := collectList_bind_agrees (k := k) (l := l) hr hg n code
  rw [gathered] at agrees
  exact agrees h

end Action

end Gather

/-! ## Calls -/

namespace Instruction

/-- Reads what stands before the operands of a call: the native, the destination, and the count of
the positional operands. -/
def decodeCallHead (opcode : Opcode) : Reading (UInt8 × Option Destination × Nat) := do
  let native ← Cursor.byte
  let destination ← Destination.decodeIf (← assignMode opcode.source₁)
  return (native, destination, ← positionalCount)

theorem decodeCall_eq (opcode : Opcode) :
    decodeCall opcode =
      decodeCallHead opcode >>= fun (native, destination, count) =>
        collectList Operand.decodeTagged count >>= fun positional =>
          namedCount >>= fun count =>
            collectList NamedOperand.decode count >>= fun named =>
              pure (.call native destination positional named) := by
  simp only [decodeCall, decodeCallHead, collectList, bind_assoc, pure_bind, bind_map_left]

theorem forward_decodeCallHead (opcode : Opcode) : Forward (decodeCallHead opcode) :=
  Forward.byte.bind fun _ => (Forward.lift _).bind fun _ => (Forward.destinationIf _).bind fun _ =>
    Forward.positionalCount.bind fun _ => .pure _

/-- The operands of a call that are read before its reading ends or fails. -/
def callParameters (opcode : Opcode) (c : Cursor) : List Operand :=
  match decodeCallHead opcode c with
  | (.error _, _) => []
  | (.ok (_, _, count), c) =>
    match gather Operand.decodeTagged count c with
    | (positional, some _, _) => positional
    | (positional, none, c) =>
      match namedCount c with
      | (.error _, _) => positional
      | (.ok count, c) =>
        positional ++ (gather NamedOperand.decode count c).1.map NamedOperand.operand

end Instruction

namespace Action

theorem call_eq (scope : Scope) (opcode : Opcode) :
    call scope opcode =
      reading (Instruction.decodeCallHead opcode) >>= fun (index, destination, count) =>
        collectList (reading Operand.decodeTagged >>= fetchOperand) count >>= fun positional =>
          reading namedCount >>= fun count =>
            collectList (reading NamedOperand.decode >>= fetchNamed) count >>= fun named =>
              conclude scope index destination positional named := by
  simp only [call, operand, argument, Instruction.decodeCallHead, NamedOperand.decode, collectList,
    fetchNamed, reading_bind, reading_lift, reading_pure, bind_assoc, pure_bind, bind_map_left]
  rfl

/-- To fetch two lists of operands is to fetch one after the other. -/
theorem mapM_append_bind {α : Type} (ps qs : List Operand) (a : Action α) :
    ((ps ++ qs).mapM fetchOperand >>= fun _ => a) =
      ps.mapM fetchOperand >>= fun _ => qs.mapM fetchOperand >>= fun _ => a := by
  simp only [List.mapM_append, bind_assoc, pure_bind]

/-- The names of named operands do not matter when the values are not used. -/
theorem mapM_fetchNamed_bind {α : Type} (ns : List NamedOperand) (a : Action α) :
    (ns.mapM fetchNamed >>= fun _ => a) =
      (ns.map NamedOperand.operand).mapM fetchOperand >>= fun _ => a := by
  induction ns with
  | nil => rfl
  | cons n ns ih =>
    simp only [List.map_cons, List.mapM_cons, fetchNamed, bind_assoc, pure_bind] at ih ⊢
    rw [ih]

/-- A reading that has been worked out, as an action. -/
theorem reading_of_run {α : Type} {r : Reading α} {m : Moment} {x : Except Fault α} {c : Cursor}
    (run : r m.execution.cursor = (x, c)) : reading r m = (x, m.moveTo c) := by
  rw [reading_run, run]
  rfl

/-- **A call that can be read** does what its instruction says. -/
theorem call_agrees_of_ok (scope : Scope) {opcode : Opcode} {m : Moment} {i : Instruction}
    {c : Cursor} (decoded : Instruction.decodeCall opcode m.execution.cursor = (.ok i, c)) :
    Agrees (call scope opcode m) (perform scope i (m.moveTo c)) := by
  have code := (Forward.decodeCall opcode).code_of_run decoded
  rw [Instruction.decodeCall_eq] at decoded
  obtain ⟨⟨index, destination, count⟩, c₁, head, decoded⟩ := ok_of_bind decoded
  obtain ⟨ps, c₂, positional, decoded⟩ := ok_of_bind decoded
  obtain ⟨count', c₃, counted, decoded⟩ := ok_of_bind decoded
  obtain ⟨ns, c₄, named, decoded⟩ := ok_of_bind decoded
  cases decoded
  have code₁ := (Instruction.forward_decodeCallHead opcode).code_of_run head
  have code₄ := (Forward.namedOperand.collectList count').code_of_run named
  rw [call_eq, bind_of_ok (reading_of_run head)]
  refine bind_agrees_of_ok (m := m.moveTo c₁) Forward.taggedOperand placeless_fetchOperand
    positional (code.trans code₁.symm) fun vs m' => ?_
  rw [bind_of_ok (reading_of_run counted)]
  exact bind_agrees_of_ok (m := m'.moveTo c₃) Forward.namedOperand placeless_fetchNamed
    named code₄ fun ws m'' => .refl _

/-- **A call that cannot be read** fetches the operands that could be, and fails. -/
theorem call_agrees_of_error (scope : Scope) {opcode : Opcode} {m : Moment} {f : Fault}
    {c : Cursor} (decoded : Instruction.decodeCall opcode m.execution.cursor = (.error f, c)) :
    Agrees (call scope opcode m)
      (((Instruction.callParameters opcode m.execution.cursor).mapM fetchOperand >>= fun _ =>
        (throw f : Action Next)) (m.moveTo c)) := by
  have code := (Forward.decodeCall opcode).code_of_run decoded
  rw [Instruction.decodeCall_eq] at decoded
  rw [call_eq, Instruction.callParameters]
  rcases error_of_bind decoded with head | ⟨⟨index, destination, count⟩, c₁, head, decoded⟩
  · rw [head, bind_of_error (reading_of_run head)]
    exact .refl _
  have code₁ := (Instruction.forward_decodeCallHead opcode).code_of_run head
  rw [head, bind_of_ok (reading_of_run head)]
  dsimp only
  rcases error_of_bind decoded with positional | ⟨ps, c₂, positional, decoded⟩
  · obtain ⟨ps, gathered⟩ := gather_of_error positional
    rw [gathered]
    exact bind_agrees_of_error (m := m.moveTo c₁) Forward.taggedOperand placeless_fetchOperand
      gathered (code.trans code₁.symm) fun vs m' => .refl _
  rw [gather_of_ok positional]
  dsimp only
  rcases error_of_bind decoded with counted | ⟨count', c₃, counted, decoded⟩
  · rw [counted]
    refine bind_agrees_of_ok (m := m.moveTo c₁) Forward.taggedOperand placeless_fetchOperand
      positional (code.trans code₁.symm) fun vs m' => ?_
    rw [bind_of_error (reading_of_run counted)]
    exact .refl _
  rcases error_of_bind decoded with named | ⟨ns, c₄, named, decoded⟩
  · obtain ⟨ns, gathered⟩ := gather_of_error named
    have code₄ := (Forward.namedOperand.collectList count').code_of_run named
    rw [counted]
    dsimp only
    rw [gathered, mapM_append_bind, ← mapM_fetchNamed_bind]
    refine bind_agrees_of_ok (m := m.moveTo c₁) Forward.taggedOperand placeless_fetchOperand
      positional (code.trans code₁.symm) fun vs m' => ?_
    rw [bind_of_ok (reading_of_run counted)]
    exact bind_agrees_of_error (m := m'.moveTo c₃) Forward.namedOperand placeless_fetchNamed
      gathered code₄ fun ws m'' => .refl _
  · cases decoded

end Action

end MessageMachine
