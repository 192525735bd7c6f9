import MessageMachine.Proofs.Lineage
import MessageMachine.Proofs.Statement.Effect

/-!
# Statements that call any native function

`Action.Tame.statement` bounds what a statement can do when its natives are the standard ones.  Of
other functions little is known, and so little is known of a statement that calls one; but all
else that the statement is made of is tame as before.  Hence a relation of moments that holds
wherever a moment follows another, and that invoking a function of the table keeps, is kept by the
whole statement (`Action.within_statement`).

Two such relations hold with any table.  A native function cannot touch the execution that calls it
(`Action.continues_statement`).  And as long as the functions of the table let classes stand, but
for their variables, statements do so too (`Action.keepsClasses_statement`).
-/

namespace MessageMachine

namespace Action

section

variable {R : Moment → Moment → Prop} [Std.Refl R] [IsTrans Moment R]
  (follows : ∀ m m', m.Follows m' → R m m') (scope : Scope)
  (invoke : ∀ index native, scope.environment.natives.slot index = some native →
    ∀ positional named,
      Within R (fun _ => True) (Action.invoke scope index native positional named))

include follows invoke

theorem within_call (opcode : Opcode) : Within R (fun _ => True) (Action.call scope opcode) := by
  have tame {α : Type} {a : Action α} (h : Tame a) : Within R (fun _ => True) a :=
    h.mono follows fun _ _ => trivial
  refine (tame (.reading .byte)).bind fun index =>
    (Within.lift fun _ _ => trivial).bind fun place =>
    (tame (.reading (.destinationIf place))).bind fun destination =>
    (tame (.reading .positionalCount)).bind fun n => (tame (Tame.operand.collect n)).bind
    fun positional => (tame (.reading .namedCount)).bind fun n' =>
    (tame (Tame.argument.collect n')).bind fun named => ?_
  cases slot : scope.environment.natives.slot index with
  | none => exact .throw trivial
  | some native =>
    refine (invoke index native slot _ _).bind fun reply => ?_
    cases reply with
    | value v => exact (tame (.assignIf destination v)).bind fun _ => .pure _
    | fault f => exact .throw trivial
    | send s => exact .pure _

/-- **What follows from following, and is kept by the native functions, is kept by a statement.** -/
theorem within_statement : Within R (fun _ => True) (Action.statement scope) := by
  have tame {α : Type} {a : Action α} (h : Tame a) : Within R (fun _ => True) a :=
    h.mono follows fun _ _ => trivial
  have rest (opcode : Opcode) (command : Command) :
      Within R (fun _ => True) (Action.rest scope opcode command) := by
    by_cases h : command = .call
    · subst h
      exact within_call follows scope invoke opcode
    · exact tame (.rest_of_ne_call scope opcode h)
  refine Within.get.bind fun m => (tame (.reading .byte)).bind fun b =>
    (Within.lift fun _ _ => trivial).bind fun command => ?_
  by_cases ht : scope.environment.settings.traceInstructions = true
  · simp only [ht, if_true]
    exact (tame .position).bind fun _ => (tame (.log rfl)).bind fun _ => rest _ command
  · simp only [ht]
    exact rest _ command

end

/-! ## What stands -/

/-- Whatever becomes of the action, its execution is carried on. -/
abbrev CarriesOn {α : Type} (a : Action α) : Prop :=
  Within (fun m m' : Moment => m.execution.Continues m'.execution) (fun _ => True) a

instance : Std.Refl fun m m' : Moment => m.execution.Continues m'.execution :=
  ⟨fun m => .refl m.execution⟩

instance : IsTrans Moment fun m m' => m.execution.Continues m'.execution :=
  ⟨fun _ _ _ h h' => h.trans h'⟩

theorem carriesOn_statement (scope : Scope) : CarriesOn (statement scope) :=
  within_statement (fun _ _ h => h.execution) scope fun index native _ positional named m => by
    obtain ⟨c, m₁, rfl, run⟩ := invoke_run scope index native positional named m
    rw [run]
    exact ⟨.refl m.execution, fun _ _ => trivial⟩

/-- **A statement carries its execution on**, whatever functions it may call. -/
theorem continues_statement {scope : Scope} {m m' : Moment} {x : Except Fault Next}
    (run : statement scope m = (x, m')) : m.execution.Continues m'.execution :=
  ((carriesOn_statement scope).of_run run).1

end Action

/-- A native function that lets all classes stand.  It may write their variables. -/
def Native.KeepsClasses (n : Native) : Prop :=
  ∀ (c : Call) (w : World), w.classes.SameOutline (n.run c w).2.classes

/-- All functions of the table let classes stand. -/
def NativeTable.KeepsClasses (t : NativeTable) : Prop :=
  ∀ index n, t.slot index = some n → n.KeepsClasses

theorem NativeTable.IsStandard.keepsClasses {t : NativeTable} (h : t.IsStandard) :
    t.KeepsClasses := fun index n slot c w =>
  .of_eq ((h index n slot).run_spec c w fun _ => True).1.classes

namespace Action

/-- Whatever becomes of the action, all classes stand. -/
abbrev KeepsClasses {α : Type} (a : Action α) : Prop :=
  Within (fun m m' : Moment => m.world.classes.SameOutline m'.world.classes) (fun _ => True) a

instance : Std.Refl fun m m' : Moment => m.world.classes.SameOutline m'.world.classes :=
  ⟨fun m => .refl m.world.classes⟩

instance : IsTrans Moment fun m m' => m.world.classes.SameOutline m'.world.classes :=
  ⟨fun _ _ _ h h' => h.trans h'⟩

/-- **A statement lets all classes stand** if its native functions do. -/
theorem keepsClasses_statement (scope : Scope) (hn : scope.environment.natives.KeepsClasses) :
    KeepsClasses (statement scope) :=
  within_statement (fun _ _ h => .of_eq h.world.classes) scope
    fun index native slot positional named m => by
      obtain ⟨c, m₁, rfl, run⟩ := invoke_run scope index native positional named m
      rw [run]
      exact ⟨hn index native slot c (m.world.log (.nativeCall native.name index)),
        fun _ _ => trivial⟩

end Action

end MessageMachine
