import Mathlib.Data.List.Forall2
import MessageMachine.Proofs.Caches
import MessageMachine.Proofs.Statement.Invocation
import MessageMachine.Proofs.Statement.Sending

/-!
# What operands resolve to

A call fetches its operands one after the other, and each fetch may leave a remark behind and
refresh the class cache of the receiver.  This is nothing to later fetches: a refreshed cache leads
to the class that was found before (`Object.lookUp_lookUp`), so all operands resolve to what they
resolved to at the start (`Moment.Concurs`).  The order of the fetches does not matter, and what a
call is made with can be told from the moment before it (`Action.fetchAll_eq_ok_iff`).

No invariant of the directory is needed.  Even if two records had one number, the search would give
the same one every time.
-/

namespace MessageMachine

/-! ## Reading twice -/

namespace World

/-- The value of an operand depends on the directory and the object of the receiver alone. -/
theorem read_fst (w : World) (receiver : ObjectId) (frame : Frame) (kind : OperandKind)
    (data : UInt32) :
    (w.read receiver frame kind data).1 =
      match kind with
      | .localVar => frame.get data
      | .constant => .ok (.ofPacked data)
      | .property =>
        match w.objects.get? receiver with
        | some o => o.property data
        | none => .error (.unknownObject receiver)
      | .classVar =>
        match w.objects.get? receiver with
        | some o => (o.classVar w.classes data).1
        | none => .error (.unknownObject receiver) := by
  unfold read
  cases kind with
  | property | classVar => cases w.objects.get? receiver <;> rfl
  | _ => rfl

/-- **Operands read the same after one of them was read.** -/
theorem read_read (w : World) (receiver : ObjectId) (frame : Frame) (kind kind' : OperandKind)
    (data data' : UInt32) :
    ((w.read receiver frame kind data).2.read receiver frame kind' data').1 =
      (w.read receiver frame kind' data').1 := by
  cases kind with
  | localVar | constant => rfl
  | property =>
    have same : (w.read receiver frame .property data).2 = w := by
      dsimp only [read]
      cases w.objects.get? receiver <;> rfl
    rw [same]
  | classVar =>
    cases found : w.objects.get? receiver with
    | none =>
      have same : (w.read receiver frame .classVar data).2 = w := by
        dsimp only [read]
        rw [found]
      rw [same]
    | some o =>
      have refreshed : (w.read receiver frame .classVar data).2 =
          w.putObject receiver (o.lookUp w.classes).2 := by
        dsimp only [read]
        rw [found]
        dsimp only
        rw [o.classVar_eq]
      obtain ⟨cache, looked⟩ := o.lookUp_snd w.classes
      have put : (w.putObject receiver (o.lookUp w.classes).2).objects.get? receiver =
          some (o.lookUp w.classes).2 := Population.get?_put found (by rw [looked])
      have classId : (o.lookUp w.classes).2.classId = o.classId := by rw [looked]
      have var : ((o.lookUp w.classes).2.classVar w.classes data').1 =
          (o.classVar w.classes data').1 := by
        rw [Object.classVar_eq, Object.classVar_eq, o.lookUp_lookUp, classId]
      have property : (o.lookUp w.classes).2.property data' = o.property data' := by
        rw [looked]
        rfl
      rw [refreshed, read_fst, read_fst, put, found]
      cases kind' with
      | property => exact property
      | classVar => exact var
      | _ => rfl

end World

/-! ## Moments that resolve operands alike -/

namespace Moment

/-- The value of an operand for the execution, or why it has none. -/
def resolve (m : Moment) (o : Operand) : Except Fault Value :=
  (m.world.read m.execution.receiver m.execution.frame o.kind o.data).1

/-- The operand resolves to the value. -/
def Resolves (m : Moment) (o : Operand) (v : Value) : Prop := m.resolve o = .ok v

/-- The named operand resolves to the argument. -/
def ResolvesNamed (m : Moment) (n : NamedOperand) (a : Argument) : Prop :=
  n.name = a.name ∧ m.Resolves n.operand a.value

/-- All operands resolve alike. -/
def Concurs (m m' : Moment) : Prop := ∀ o, m'.resolve o = m.resolve o

instance : Std.Refl Concurs := ⟨fun _ _ => rfl⟩

instance : IsTrans Moment Concurs := ⟨fun _ _ _ h h' o => (h' o).trans (h o)⟩

theorem Concurs.resolves {m m' : Moment} (h : m.Concurs m') : m'.Resolves = m.Resolves := by
  funext o v
  rw [Resolves, Resolves, h]

theorem Concurs.resolvesNamed {m m' : Moment} (h : m.Concurs m') :
    m'.ResolvesNamed = m.ResolvesNamed := by
  funext n a
  rw [ResolvesNamed, ResolvesNamed, h.resolves]

theorem concurs_log (m : Moment) (x : Entry) : m.Concurs { m with world := m.world.log x } := by
  intro o
  rw [resolve, resolve, World.read_fst, World.read_fst]
  rfl

theorem concurs_opened (scope : Scope) (m : Moment) : m.Concurs (Action.opened scope m) := by
  unfold Action.opened
  split
  · exact fun _ => rfl
  · split
    · exact m.concurs_log _
    · exact fun _ => rfl

theorem concurs_fetchOperand (o : Operand) (m : Moment) :
    m.Concurs (Action.fetchOperand o m).2 := by
  have read : m.Concurs { m with
      world := (m.world.read m.execution.receiver m.execution.frame o.kind o.data).2 } :=
    fun o' => m.world.read_read m.execution.receiver m.execution.frame o.kind o'.kind o.data o'.data
  rw [Action.fetchOperand, Action.fetch_run, Action.fetched]
  generalize m.world.read m.execution.receiver m.execution.frame o.kind o.data = outcome at read
  obtain ⟨f | v, w⟩ := outcome
  · exact read
  · dsimp only
    split
    · exact fun o' => (concurs_log { m with world := w } _ o').trans (read o')
    · exact read

end Moment

/-! ## Fetching several operands -/

section

variable {σ α β : Type} {g : α → ExceptT Fault (StateM σ) β} {P : σ → α → β → Prop}

/-- Computations that do not disturb one another give in a row what each of them gives
at the start. -/
theorem mapM_eq_ok_iff (gives : ∀ s a b, (g a s).1 = .ok b ↔ P s a b)
    (stable : ∀ s a a' b', P (g a s).2 a' b' ↔ P s a' b') (as : List α) (bs : List β) (s : σ) :
    (as.mapM g s).1 = .ok bs ↔ List.Forall₂ (P s) as bs := by
  induction as generalizing s bs with
  | nil =>
    rw [List.mapM_nil, List.forall₂_nil_left_iff]
    show Except.ok [] = Except.ok bs ↔ _
    rw [Except.ok.injEq, eq_comm]
  | cons a as ih =>
    rw [List.mapM_cons]
    have kept : P (g a s).2 = P s := by
      funext a' b'
      exact propext (stable s a a' b')
    have first := gives s a
    generalize run : g a s = outcome at kept first
    match outcome with
    | (.error f, s') =>
      rw [bind_of_error run]
      refine ⟨nofun, fun all => ?_⟩
      obtain _ | ⟨holds, -⟩ := all
      exact absurd ((first _).mpr holds) nofun
    | (.ok b, s') =>
      have others := ih (s := s')
      rw [show P s' = P s from kept] at others
      rw [bind_of_ok run]
      generalize rest : as.mapM g s' = outcome at others
      match outcome with
      | (.error f, s'') =>
        rw [bind_of_error rest]
        refine ⟨nofun, fun all => ?_⟩
        obtain _ | ⟨-, holds⟩ := all
        exact absurd ((others _).mpr holds) nofun
      | (.ok bs', s'') =>
        rw [bind_of_ok rest]
        show Except.ok (b :: bs') = Except.ok bs ↔ _
        rw [Except.ok.injEq]
        constructor
        · rintro rfl
          exact .cons ((first b).mp rfl) ((others bs').mp rfl)
        · intro all
          obtain _ | ⟨holds, holds'⟩ := all
          have same : b = _ := Except.ok.inj ((first _).mpr holds)
          have same' : bs' = _ := Except.ok.inj ((others _).mpr holds')
          rw [same, same']

end

namespace Action

theorem fetchOperand_eq_ok_iff (m : Moment) (o : Operand) (v : Value) :
    (fetchOperand o m).1 = .ok v ↔ m.Resolves o v := by
  rw [fetchOperand, fetch_run]
  rfl

theorem fetchNamed_eq_ok_iff (m : Moment) (n : NamedOperand) (a : Argument) :
    (fetchNamed n m).1 = .ok a ↔ m.ResolvesNamed n a := by
  obtain ⟨name, value⟩ := a
  have operand := fetchOperand_eq_ok_iff m n.operand
  unfold fetchNamed Moment.ResolvesNamed
  generalize run : fetchOperand n.operand m = outcome at operand
  match outcome with
  | (.error f, m') =>
    rw [bind_of_error run, ← operand]
    simp
  | (.ok v, m') =>
    rw [bind_of_ok run, ← operand]
    show Except.ok (Argument.mk n.name v) = _ ↔ _
    simp

theorem fetchNamed_snd (n : NamedOperand) (m : Moment) :
    (fetchNamed n m).2 = (fetchOperand n.operand m).2 := by
  unfold fetchNamed
  generalize run : fetchOperand n.operand m = outcome
  match outcome with
  | (.error f, m') => rw [bind_of_error run]
  | (.ok v, m') =>
    rw [bind_of_ok run]
    rfl

theorem mapM_fetchOperand_eq_ok_iff (os : List Operand) (vs : List Value) (m : Moment) :
    (os.mapM fetchOperand m).1 = .ok vs ↔ List.Forall₂ m.Resolves os vs := by
  refine mapM_eq_ok_iff fetchOperand_eq_ok_iff (fun m o o' v => ?_) os vs m
  rw [(Moment.concurs_fetchOperand o m).resolves]

theorem mapM_fetchNamed_eq_ok_iff (ns : List NamedOperand) (as : List Argument) (m : Moment) :
    (ns.mapM fetchNamed m).1 = .ok as ↔ List.Forall₂ m.ResolvesNamed ns as := by
  refine mapM_eq_ok_iff fetchNamed_eq_ok_iff (fun m n n' a => ?_) ns as m
  rw [fetchNamed_snd, (Moment.concurs_fetchOperand n.operand m).resolvesNamed]

/-- Operands that resolve are fetched.  The place of the execution does not matter, nor does what is
fetched change what other operands resolve to. -/
theorem mapM_fetchOperand_of_resolves {os : List Operand} {vs : List Value} {m : Moment}
    (all : List.Forall₂ m.Resolves os vs) :
    ∃ m', os.mapM fetchOperand m = (.ok vs, m') ∧ m.Looked m' ∧ m.Concurs m' := by
  have looked := Within.mapM Moment.Looked.within_fetchOperand os m
  have concurs := Within.mapM (R := Moment.Concurs) (P := fun _ => True)
    (fun o m => ⟨Moment.concurs_fetchOperand o m, fun _ _ => trivial⟩) os m
  exact ⟨_, Prod.ext ((mapM_fetchOperand_eq_ok_iff os vs m).mpr all) rfl, looked.1, concurs.1⟩

theorem mapM_fetchNamed_of_resolves {ns : List NamedOperand} {as : List Argument} {m : Moment}
    (all : List.Forall₂ m.ResolvesNamed ns as) :
    ∃ m', ns.mapM fetchNamed m = (.ok as, m') ∧ m.Looked m' :=
  ⟨_, Prod.ext ((mapM_fetchNamed_eq_ok_iff ns as m).mpr all) rfl,
    (Within.mapM Moment.Looked.within_fetchNamed ns m).1⟩

/-- **All operands of a call are fetched just if all of them resolve**, to what they resolve to. -/
theorem fetchAll_eq_ok_iff (os : List Operand) (ns : List NamedOperand) (vs : List Value)
    (as : List Argument) (m : Moment) :
    (fetchAll os ns m).1 = .ok (vs, as) ↔
      List.Forall₂ m.Resolves os vs ∧ List.Forall₂ m.ResolvesNamed ns as := by
  have values := mapM_fetchOperand_eq_ok_iff os (m := m)
  unfold fetchAll
  generalize run : os.mapM fetchOperand m = outcome at values
  match outcome with
  | (.error f, m') =>
    rw [bind_of_error run, ← values]
    simp
  | (.ok vs', m') =>
    obtain ⟨m₁, run₁, -, concurs⟩ := mapM_fetchOperand_of_resolves ((values vs').mp rfl)
    rw [run] at run₁
    cases run₁
    have arguments := mapM_fetchNamed_eq_ok_iff ns (m := m')
    rw [concurs.resolvesNamed] at arguments
    rw [bind_of_ok run, ← values, ← arguments]
    generalize run' : ns.mapM fetchNamed m' = outcome
    match outcome with
    | (.error f, m'') =>
      rw [bind_of_error run']
      simp
    | (.ok as', m'') =>
      rw [bind_of_ok run']
      show Except.ok (vs', as') = Except.ok (vs, as) ↔ _
      simp

end Action

end MessageMachine
