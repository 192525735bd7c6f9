import MessageMachine.Machine.Statement

/-!
# Ordinary faults, and faults of the data

A fault is *ordinary* when it does not abort the chain of sends that it arises in.  The one fault
that aborts, an exhausted budget, is raised by the machine itself when it counts a statement.
Nothing that a statement does while it reads code, fetches and writes operands, applies operators,
or looks at the operands of a call can raise it: each of these outcomes is `OrdinaryFaults`.

Most of what can go wrong once code has been read does not lie in the code at all.  A fault is one
*of the data* (`Fault.isData`) when it depends on objects and classes, on the values that an
operator or a native function is given, or on the table of native functions.  Operators and native
functions fail with such faults only, and so do fetching and writing, except for a local that the
frame does not have (`World.error_of_read`, `World.error_of_write`).
-/

namespace MessageMachine

/-- A fault that does not abort the chain of sends that it arises in. -/
def Fault.IsOrdinary (f : Fault) : Prop := f.aborts = false

/-- A fault that lies in objects, classes, values or native functions.  No code can rule it out. -/
def Fault.isData : Fault → Bool
  | propertyOutOfRange .. | classVarOutOfRange .. | unknownObject _ | unknownClass _
  | unknownNative _ | tagMismatch .. | divisionByZero | native .. => true
  | _ => false

theorem Fault.isOrdinary_of_isData {f : Fault} (h : f.isData = true) : f.IsOrdinary := by
  cases f with
  | statementBudget => cases h
  | _ => rfl

/-- An outcome that is no failure, or an ordinary one. -/
def OrdinaryFaults {α : Type} (x : Except Fault α) : Prop := ∀ f, x = .error f → f.IsOrdinary

/-- An outcome that is no failure, or one that lies in the data. -/
def DataFaults {α : Type} (x : Except Fault α) : Prop := ∀ f, x = .error f → f.isData = true

namespace DataFaults

variable {α β : Type}

theorem ok (a : α) : DataFaults (.ok a) := fun _ h => by cases h

theorem error {f : Fault} (h : f.isData = true) : DataFaults (.error f : Except Fault α) :=
  fun _ hg => by cases hg; exact h

theorem ordinary {x : Except Fault α} (h : DataFaults x) : OrdinaryFaults x :=
  fun f hf => Fault.isOrdinary_of_isData (h f hf)

theorem map {x : Except Fault α} (h : DataFaults x) (g : α → β) : DataFaults (x.map g) := by
  cases x with
  | ok a => exact ok _
  | error f => exact error (h f rfl)

theorem bind {x : Except Fault α} {g : α → Except Fault β} (h : DataFaults x)
    (hg : ∀ a, DataFaults (g a)) : DataFaults (x >>= g) := by
  cases x with
  | ok a => exact hg a
  | error f => exact error (h f rfl)

theorem unaryApply (op : UnaryOp) (source : Value) : DataFaults (op.apply source) := by
  have integer : DataFaults (op.integer source) := by
    unfold UnaryOp.integer
    split
    · exact ok _
    · exact error rfl
  cases op with
  | copy | not => exact ok _
  | negate | complement => exact integer.map _

theorem binaryApply (op : BinaryOp) (left right : Value) :
    DataFaults (op.apply left right) := by
  have integers : DataFaults (op.integers left right) := by
    unfold BinaryOp.integers
    split
    · exact ok _
    · exact error rfl
  -- division and remainder fail on their own account too
  have quotient (p : BitVec 60 × BitVec 60) (v : Value) :
      DataFaults (if p.2 = 0 then .error .divisionByZero else .ok v) := by
    split
    · exact error rfl
    · exact ok _
  cases op with
  | and | or | equal | notEqual => exact ok _
  | divide | modulo => exact integers.bind fun p => quotient p _
  | _ => exact integers.map _

theorem property (o : Object) (index : UInt32) : DataFaults (o.property index) := by
  unfold Object.property
  split
  · exact ok _
  · exact error rfl

theorem setProperty (o : Object) (index : UInt32) (value : Value) :
    DataFaults (o.setProperty index value) := by
  unfold Object.setProperty
  split
  · exact ok _
  · exact error rfl

theorem classVar (o : Object) (classes : Directory) (index : UInt32) :
    DataFaults (o.classVar classes index).1 := by
  unfold Object.classVar
  split
  · unfold Class.var
    split
    · exact ok _
    · exact error rfl
  · exact error rfl

/-- Reading the operands that name a send. -/
theorem send (c : Call) : DataFaults c.send := by
  have operand (i : Nat) : DataFaults (c.operand i) := by
    unfold Call.operand
    split
    · exact ok _
    · exact error rfl
  have object (i : Nat) : DataFaults (c.object i) := (operand i).bind fun _ => by
    split
    · exact ok _
    · exact error rfl
  have message (i : Nat) : DataFaults (c.message i) := (operand i).bind fun _ => by
    split
    · exact ok _
    · exact error rfl
  exact (object 0).bind fun _ => (message 1).bind fun _ => ok _

end DataFaults

/-! ## Fetching and writing -/

theorem Frame.get_of_lt {f : Frame} {index : UInt32} (h : index.toNat < f.size) :
    ∃ value, f.get index = .ok value := by
  rw [get, Array.getElem?_eq_getElem h]
  exact ⟨_, rfl⟩

/-- When an operand cannot be read, this lies in the data, or it is a local that the frame does not
have. -/
theorem World.error_of_read (w : World) (receiver : ObjectId) (frame : Frame) (kind : OperandKind)
    (data : UInt32) {f : Fault} (h : (w.read receiver frame kind data).1 = .error f) :
    f.isData = true ∨ kind = .localVar ∧ frame.get data = .error f := by
  unfold World.read at h
  split at h
  · exact .inr ⟨rfl, h⟩
  · cases h
  · split at h
    · exact .inl (DataFaults.property _ _ f h)
    · exact .inl (DataFaults.error rfl f h)
  · split at h
    · exact .inl (DataFaults.classVar _ _ _ f h)
    · exact .inl (DataFaults.error rfl f h)

/-- When a destination cannot be written, this lies in the data, or it is a local that the frame
does not have. -/
theorem World.error_of_write (w : World) (receiver : ObjectId) (frame : Frame) (place : Place)
    (data : UInt32) (value : Value) {f : Fault}
    (h : (w.write receiver frame place.kind data value).1 = .error f) :
    f.isData = true ∨ place = .localVar ∧ frame.set data value = .error f := by
  cases place with
  | localVar => exact .inr ⟨rfl, h⟩
  | property =>
    simp only [World.write, Place.kind] at h
    split at h
    · rename_i o _
      cases written : o.setProperty data value with
      | ok o' =>
        rw [written] at h
        cases h
      | error g =>
        rw [written] at h
        cases h
        exact .inl (DataFaults.setProperty _ _ _ f written)
    · exact .inl (DataFaults.error rfl f h)

namespace OrdinaryFaults

variable {α : Type}

theorem ok (a : α) : OrdinaryFaults (.ok a) := fun _ h => by cases h

theorem error {f : Fault} (h : f.IsOrdinary) : OrdinaryFaults (.error f : Except Fault α) :=
  fun _ hg => by cases hg; exact h

theorem commandAt (o : Opcode) (offset : Nat) : OrdinaryFaults (o.commandAt offset) := by
  unfold Opcode.commandAt
  split
  · exact ok _
  · exact error rfl

theorem operandKind (b : UInt8) : OrdinaryFaults (OperandKind.ofByte b) := by
  unfold OperandKind.ofByte
  split
  · exact ok _
  · exact error rfl

theorem assignMode (field : UInt8) : OrdinaryFaults (assignMode field) := by
  unfold MessageMachine.assignMode
  split
  · exact ok _
  · exact ok _
  · exact ok _
  · exact error rfl

theorem gotoMode (field : UInt8) : OrdinaryFaults (GotoMode.ofField field) := by
  unfold GotoMode.ofField
  split
  · exact ok _
  · exact ok _
  · exact ok _
  · exact error rfl

theorem unaryOp (b : UInt8) : OrdinaryFaults (UnaryOp.ofByte b) := by
  unfold UnaryOp.ofByte
  split
  · exact ok _
  · exact error rfl

theorem binaryOp (b : UInt8) : OrdinaryFaults (BinaryOp.ofByte b) := by
  unfold BinaryOp.ofByte
  split
  · exact ok _
  · exact error rfl

theorem frameGet (f : Frame) (index : UInt32) : OrdinaryFaults (f.get index) := by
  unfold Frame.get
  split
  · exact ok _
  · exact error rfl

theorem frameSet (f : Frame) (index : UInt32) (value : Value) :
    OrdinaryFaults (f.set index value) := by
  unfold Frame.set
  split
  · exact ok _
  · exact error rfl

theorem read (w : World) (receiver : ObjectId) (frame : Frame) (kind : OperandKind)
    (data : UInt32) : OrdinaryFaults (w.read receiver frame kind data).1 := by
  intro f h
  rcases World.error_of_read _ _ _ _ _ h with data | ⟨-, missing⟩
  · exact Fault.isOrdinary_of_isData data
  · exact frameGet _ _ f missing

theorem write (w : World) (receiver : ObjectId) (frame : Frame) (place : Place) (data : UInt32)
    (value : Value) : OrdinaryFaults (w.write receiver frame place.kind data value).1 := by
  intro f h
  rcases World.error_of_write _ _ _ _ _ _ h with data | ⟨-, missing⟩
  · exact Fault.isOrdinary_of_isData data
  · exact frameSet _ _ _ f missing

end OrdinaryFaults

end MessageMachine
