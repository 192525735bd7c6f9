import Mathlib.Data.List.Induction
import Mathlib.Data.List.Nodup
import MessageMachine.Proofs.Code.Assembled

/-!
# Programs for the assembler

A `Program` is what is told to the assembler, as data: a list of directives.  Besides the sentences,
which are emitted as they stand, it has gotos forward, which carry a label that is bound later, and
gotos back, to an offset that was marked before.  Labels and marks are numbers of the program's own
choosing; `Names` is what they stand for while the program runs.

What a program comes to is said without running it.  `Program.offsetOf` is the offset at which a
directive stands, `Program.target` the place in the finished body where that is, and
`Program.instructions` are the instructions with their places.

`Program.Sound` is what is asked of a program: every name is given once and used after that, every
label is bound once, and the finished body keeps within the limits.
-/

namespace MessageMachine

/-- What is emitted without regard to the rest of the program. -/
inductive Sentence where
  | unary (op : UnaryOp) (destination : Destination) (source : Operand)
  /-- Assigns a constant. -/
  | load (destination : Destination) (v : Value)
  | binary (op : BinaryOp) (destination : Destination) (left right : Operand)
  | call (native : UInt8) (destination : Option Destination) (positional : List Operand)
      (named : List NamedOperand)
  | handOver
  | leave (value : Operand)
  /-- Returns a constant. -/
  | leaveConstant (v : Value)
  | line (number : UInt32)
  deriving DecidableEq

namespace Sentence

/-- The instruction that a sentence comes to, unless there is no constant for its value. -/
def instruction : Sentence → Except Unpackable Instruction
  | unary op destination source => .ok (.unary op destination source)
  | load destination v => (Operand.ofValue v).map (.unary .copy destination)
  | binary op destination left right => .ok (.binary op destination left right)
  | call native destination positional named => .ok (.call native destination positional named)
  | handOver => .ok .handOver
  | leave value => .ok (.leave value)
  | leaveConstant v => (Operand.ofValue v).map .leave
  | line number => .ok (.line number)

/-- The sentence can be written so that it reads back. -/
def Writable (s : Sentence) : Prop :=
  match s.instruction with
  | .ok i => i.Encodable
  | .error _ => False

instance : DecidablePred Writable := fun s => by
  unfold Writable
  split <;> infer_instance

def write : Sentence → Assembler Unit
  | unary op destination source => .unary op destination source
  | load destination v => .load destination v
  | binary op destination left right => .binary op destination left right
  | call native destination positional named => .call native destination positional named
  | handOver => .handOver
  | leave value => .leave value
  | leaveConstant v => .leaveConstant v
  | line number => .line number

end Sentence

/-- One thing that a program tells the assembler. -/
inductive Directive where
  | parameter (id : ParameterId) (default : Value)
  | sentence (s : Sentence)
  /-- A goto that leads to where its label is bound.  It is taken always, or when the truth of an
  operand is as wanted. -/
  | goto (label : Nat) (condition : Option (Bool × Operand))
  /-- Gives a name to the offset reached so far. -/
  | mark (name : Nat)
  | gotoBack (name : Nat)
  /-- Binds a label to the offset reached so far. -/
  | bind (label : Nat)
  deriving DecidableEq

/-- What the names of a program stand for. -/
structure Names where
  labels : Nat → Option Label := fun _ => none
  marks : Nat → Option Nat := fun _ => none

namespace Names

def withLabel (s : Names) (label : Nat) (place : Label) : Names :=
  { s with labels := fun l => if l = label then some place else s.labels l }

def withMark (s : Names) (name : Nat) (offset : Nat) : Names :=
  { s with marks := fun m => if m = name then some offset else s.marks m }

theorem labels_withLabel (s : Names) (label : Nat) (place : Label) (l : Nat) :
    (s.withLabel label place).labels l = if l = label then some place else s.labels l := rfl

theorem marks_withMark (s : Names) (name offset m : Nat) :
    (s.withMark name offset).marks m = if m = name then some offset else s.marks m := rfl

end Names

/-- A goto forward. -/
def Assembler.gotoWhen : Option (Bool × Operand) → Assembler Label
  | none => goto
  | some (true, condition) => gotoIfTrue condition
  | some (false, condition) => gotoIfFalse condition

/-- A goto with the given target. -/
def Instruction.gotoWhen (target : UInt32) : Option (Bool × Operand) → Instruction
  | none => goto target
  | some (wanted, condition) => gotoIf wanted target condition

namespace Directive

/-- Tells a directive to the assembler.  A name that stands for nothing is passed over. -/
def write (s : Names) : Directive → Assembler Names
  | parameter id default => do
    let _ ← Assembler.parameter id default
    return s
  | sentence i => do
    i.write
    return s
  | goto label condition => do
    return s.withLabel label (← Assembler.gotoWhen condition)
  | mark name => do
    return s.withMark name (← Assembler.offset)
  | gotoBack name => do
    if let some offset := s.marks name then Assembler.gotoBack offset
    return s
  | bind label => do
    if let some place := s.labels label then Assembler.bindLabel place
    return s

/-- The instruction that a directive emits.  `target` gives the target of a goto from the directive
that says where it leads. -/
def instruction (target : Directive → UInt32) : Directive → Option Instruction
  | sentence s => s.instruction.toOption
  | goto label condition => some (.gotoWhen (target (bind label)) condition)
  | gotoBack name => some (.goto (target (mark name)))
  | parameter _ _ | mark _ | bind _ => none

/-- The bytes that a directive adds to the code. -/
def size (d : Directive) : Nat := ((d.instruction fun _ => 0).map Instruction.size).getD 0

def parameter? : Directive → Option Parameter
  | parameter id default => some ⟨id, default⟩
  | _ => none

/-- The label that a goto forward gives out. -/
def label? : Directive → Option Nat
  | goto label _ => some label
  | _ => none

end Directive

/-- What is told to the assembler, in order. -/
abbrev Program := List Directive

namespace Program

/-- Tells a program to the assembler. -/
def run (p : Program) : Assembler Names := p.foldlM Directive.write {}

/-- The program as one that only writes. -/
def write (p : Program) : Assembler Unit := do
  let _ ← run p

def parameters (p : Program) : List Parameter := p.filterMap Directive.parameter?

def labels (p : Program) : List Nat := p.filterMap Directive.label?

/-- The length of the code. -/
def size (p : Program) : Nat := extent Directive.size p

/-- The length of the header. -/
def headerLength (p : Program) : Nat := 2 + 8 * p.parameters.length

/-- The offset reached in the code where a directive stands. -/
def offsetOf (p : Program) (d : Directive) : Nat := size (p.takeWhile (· ≠ d))

/-- The place of that offset in the finished body. -/
def target (p : Program) (d : Directive) : UInt32 := .ofNat (p.headerLength + p.offsetOf d)

/-- The instructions of the finished body with the places where they begin. -/
def instructions (p : Program) : List (Nat × Instruction) :=
  (layout Directive.size p.headerLength p).filterMap fun (place, d) =>
    (d.instruction p.target).map (place, ·)

end Program

/-- The directive may follow the program `before`. -/
def Directive.Allowed (before : Program) : Directive → Prop
  | parameter _ default => default.Packable
  | sentence s => s.Writable
  | goto label _ => label ∉ before.labels
  | mark name => mark name ∉ before
  | gotoBack name => mark name ∈ before
  | bind label => label ∈ before.labels ∧ bind label ∉ before

instance (before : Program) : DecidablePred (Directive.Allowed before) := fun d => by
  unfold Directive.Allowed
  split <;> infer_instance

namespace Program

/-- Each directive may stand where it stands. -/
def Orderly (p : Program) : Prop := ∀ i, (h : i < p.length) → p[i].Allowed (p.take i)

instance : DecidablePred Orderly := fun _ => inferInstanceAs (Decidable (∀ _, _))

/-- What is asked of a program that is written with the given count of plain locals. -/
structure Sound (p : Program) (locals : UInt8) : Prop where
  orderly : p.Orderly
  bound : ∀ label ∈ p.labels, .bind label ∈ p
  /-- A frame has room for all locals. -/
  locals_le : locals.toNat + p.parameters.length ≤ Limits.locals
  /-- Every place in the finished body can be the target of a goto. -/
  length_lt : p.headerLength + p.size < UInt32.size

end Program

/-! ## Offsets in a growing program -/

namespace Program

variable {p q : Program} {d e : Directive}

theorem size_append (p q : Program) : size (p ++ q) = p.size + q.size := extent_append _ p q

/-- A directive that was not there before stands at the end of what was there. -/
theorem offsetOf_append_cons (h : d ∉ p) (q : Program) : offsetOf (p ++ d :: q) d = p.size := by
  have before : ∀ e ∈ p, decide (e ≠ d) = true := fun e he =>
    decide_eq_true fun same => h (same ▸ he)
  rw [offsetOf, List.takeWhile_append_of_pos before, List.takeWhile_cons_of_neg (by simp),
    List.append_nil]

theorem offsetOf_append (h : d ∈ p) (q : Program) : offsetOf (p ++ q) d = p.offsetOf d := by
  obtain ⟨before, after, rfl, fresh⟩ := List.eq_append_cons_of_mem h
  rw [List.append_assoc, List.cons_append, offsetOf_append_cons fresh, offsetOf_append_cons fresh]

theorem offsetOf_le (p : Program) (d : Directive) : p.offsetOf d ≤ p.size := by
  have parts := size_append (p.takeWhile (· ≠ d)) (p.dropWhile (· ≠ d))
  rw [List.takeWhile_append_dropWhile] at parts
  rw [offsetOf, parts]
  exact Nat.le_add_right _ _

theorem mem_labels {l : Nat} : l ∈ p.labels ↔ ∃ c, .goto l c ∈ p := by
  simp only [labels, List.mem_filterMap]
  constructor
  · rintro ⟨d, mem, label⟩
    cases d <;> cases label
    exact ⟨_, mem⟩
  · rintro ⟨c, mem⟩
    exact ⟨_, mem, rfl⟩

namespace Orderly

theorem left (h : Orderly (p ++ q)) : p.Orderly := by
  intro i hi
  have := h i (by rw [List.length_append]; omega)
  rwa [List.getElem_append_left hi, List.take_append_of_le_length (Nat.le_of_lt hi)] at this

theorem last (h : Orderly (p ++ [d])) : d.Allowed p := by
  have := h p.length (by simp)
  simpa using this

/-- Each directive of the program was allowed after what came before it. -/
theorem allowed (h : p.Orderly) (mem : d ∈ p) :
    ∃ before : Program, before <+: p ∧ d.Allowed before := by
  obtain ⟨i, hi, rfl⟩ := List.getElem_of_mem mem
  exact ⟨_, List.take_prefix i p, h i hi⟩

/-- A goto back leads to a mark that comes before it. -/
theorem marked (h : p.Orderly) {m : Nat} (mem : .gotoBack m ∈ p) : .mark m ∈ p := by
  obtain ⟨before, earlier, mark⟩ := h.allowed mem
  exact earlier.subset mark

/-- A label is bound after it was given out. -/
theorem given (h : p.Orderly) {l : Nat} (mem : .bind l ∈ p) : l ∈ p.labels := by
  obtain ⟨before, earlier, label, -⟩ := h.allowed mem
  obtain ⟨c, goto⟩ := mem_labels.1 label
  exact mem_labels.2 ⟨c, earlier.subset goto⟩

theorem labels_nodup (h : p.Orderly) : p.labels.Nodup := by
  induction p using List.reverseRecOn with
  | nil => exact List.nodup_nil
  | append_singleton p d ih =>
    have last := h.last
    have nodup := ih h.left
    rw [labels, List.filterMap_append, List.nodup_append]
    cases d with
    | goto l c =>
      refine ⟨nodup, List.nodup_singleton l, fun m hm n hn same => ?_⟩
      rw [same, List.mem_singleton.1 hn] at hm
      exact last hm
    | parameter | sentence | mark | gotoBack | bind =>
      exact ⟨nodup, List.nodup_nil, fun _ _ _ none => by cases none⟩

end Orderly

end Program

end MessageMachine
