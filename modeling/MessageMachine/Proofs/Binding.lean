import Mathlib.Data.List.Nodup
import MessageMachine.Handler

/-!
# Binding arguments

A handler begins with a frame in which each parameter has the value that was passed under its name,
or its default, and each plain local is nil.  `Handler.bind` lays this frame out at once.  The same
frame comes of filling a blank one slot after the other (`Handler.bindInTurn_eq`); there the size
of the frame and every single write could be refused, and none of them ever is, since the header
has been checked.

Arguments are looked for by name, once for each parameter.  So of several arguments of one name the
first one counts (`Parameter.Takes`), arguments that no parameter asks for do not matter, and
neither does the order as long as the names are distinct.
-/

namespace MessageMachine

/-! ## One parameter -/

namespace Parameter

variable {p : Parameter} {arguments others : List Argument} {v : Value}

/-- What a parameter takes: the value of the first argument of its name, or its default if there is
no such argument. -/
inductive Takes (p : Parameter) (arguments : List Argument) : Value → Prop
  | passed {before after : List Argument} {a : Argument} (split : arguments = before ++ a :: after)
    (named : a.name = p.id) (first : ∀ b ∈ before, b.name ≠ p.id) : Takes p arguments a.value
  | missing (absent : ∀ a ∈ arguments, a.name ≠ p.id) : Takes p arguments p.default

theorem takes_valueIn (p : Parameter) (arguments : List Argument) :
    p.Takes arguments (p.valueIn arguments) := by
  unfold valueIn
  cases found : arguments.find? fun a => a.name = p.id with
  | none =>
    rw [List.find?_eq_none] at found
    exact .missing (by simpa using found)
  | some a =>
    obtain ⟨named, before, after, split, first⟩ := List.find?_eq_some_iff_append.mp found
    exact .passed split (of_decide_eq_true named) (by simpa using first)

/-- There is no more than one argument of a name to find when names are distinct. -/
theorem valueIn_of_mem (distinct : (arguments.map Argument.name).Nodup) {a : Argument}
    (mem : a ∈ arguments) (named : a.name = p.id) : p.valueIn arguments = a.value := by
  have takes := p.takes_valueIn arguments
  generalize p.valueIn arguments = v at takes ⊢
  obtain @⟨before, after, b, split, named', -⟩ | ⟨absent⟩ := takes
  · have mem' : b ∈ arguments := by simp [split]
    have same : b = a := List.inj_on_of_nodup_map distinct mem' mem (named'.trans named.symm)
    rw [same]
  · exact absurd named (absent a mem)

theorem valueIn_of_absent (absent : ∀ a ∈ arguments, a.name ≠ p.id) :
    p.valueIn arguments = p.default := by
  have none : (arguments.find? fun a => a.name = p.id) = none := by simpa using absent
  rw [valueIn, none]

/-- **The order of arguments with distinct names does not matter.** -/
theorem valueIn_perm (distinct : (arguments.map Argument.name).Nodup)
    (perm : arguments.Perm others) : p.valueIn others = p.valueIn arguments := by
  by_cases passed : ∃ a ∈ arguments, a.name = p.id
  · obtain ⟨a, mem, named⟩ := passed
    have distinct' : (others.map Argument.name).Nodup := (perm.map _).nodup_iff.mp distinct
    rw [valueIn_of_mem distinct mem named, valueIn_of_mem distinct' (perm.mem_iff.mp mem) named]
  · have absent : ∀ a ∈ arguments, a.name ≠ p.id := fun a mem named => passed ⟨a, mem, named⟩
    have absent' : ∀ a ∈ others, a.name ≠ p.id := fun a mem => absent a (perm.mem_iff.mpr mem)
    rw [valueIn_of_absent absent, valueIn_of_absent absent']

/-- Arguments that are left out by a filter that keeps the name of the parameter do not matter. -/
theorem valueIn_filter {keeps : Argument → Bool} (kept : ∀ a, a.name = p.id → keeps a = true) :
    p.valueIn (arguments.filter keeps) = p.valueIn arguments := by
  have same : (fun a => decide (keeps a = true ∧ decide (a.name = p.id) = true)) =
      fun a : Argument => decide (a.name = p.id) := by
    funext a
    by_cases named : a.name = p.id <;> simp [named, kept]
  rw [valueIn, List.find?_filter, same, valueIn]

end Parameter

/-! ## One slot after the other -/

/-- Writes the parameters into a frame, from the slot `i` on. -/
def Frame.fill (arguments : List Argument) : List Parameter → (i : Nat) → Frame → Except Fault Frame
  | [], _, f => .ok f
  | p :: ps, i, f => do
    let f ← f.set (.ofNat i) (p.valueIn arguments)
    fill arguments ps (i + 1) f

/-- Makes a blank frame and writes the parameters into it. -/
def Handler.bindInTurn (h : Handler) (track : Bool) (arguments : List Argument) :
    Except Fault Frame := do
  let f ← Frame.ofSize track h.frameSize
  f.fill arguments h.parameters 0

namespace Frame

theorem eq_of_toList {f f' : Frame} (h : f.slots.toList = f'.slots.toList) : f = f' := by
  cases f
  cases f'
  simp_all

/-- A write to a slot that the frame has. -/
theorem set_of_lt {f : Frame} {i : Nat} (h : i < f.size) (v : Value) :
    ∃ f', f.set (.ofNat i) v = .ok f' ∧ f'.slots.toList = f.slots.toList.set i ⟨v, true⟩ := by
  have limit : f.size ≤ 50 := f.size_le
  have index : (UInt32.ofNat i).toNat = i := by
    rw [UInt32.toNat_ofNat']
    omega
  have bound : (UInt32.ofNat i).toNat < f.slots.size := by
    rw [index]
    exact h
  refine ⟨_, dif_pos bound, ?_⟩
  simp [index]

/-- Filling puts the values of the parameters behind what has been written, and leaves the rest of
the frame as it is. -/
theorem fill_of_blank (arguments : List Argument) (ps : List Parameter) {f : Frame}
    {written blanks : List Slot} {b : Slot}
    (layout : f.slots.toList = written ++ (List.replicate ps.length b ++ blanks)) :
    ∃ f', f.fill arguments ps written.length = .ok f' ∧
      f'.slots.toList = written ++ (ps.map (fun p => ⟨p.valueIn arguments, true⟩) ++ blanks) := by
  induction ps generalizing f written with
  | nil => exact ⟨f, rfl, by simpa using layout⟩
  | cons p ps ih =>
    have room : written.length < f.size := by
      rw [size, ← Array.length_toList, layout]
      simp only [List.length_append, List.length_replicate, List.length_cons]
      omega
    obtain ⟨f₁, set, layout₁⟩ := set_of_lt room (p.valueIn arguments)
    have next : f₁.slots.toList =
        (written ++ [⟨p.valueIn arguments, true⟩]) ++ (List.replicate ps.length b ++ blanks) := by
      rw [layout₁, layout, List.length_cons, List.replicate_succ]
      simp
    obtain ⟨f', filled, layout'⟩ := ih next
    refine ⟨f', ?_, by simpa using layout'⟩
    rw [fill, set]
    show fill arguments ps (written.length + 1) f₁ = .ok f'
    simpa using filled

end Frame

/-! ## Frames of handlers -/

namespace Handler

variable (h : Handler) (track : Bool) (arguments : List Argument)

theorem toList_bind :
    (h.bind track arguments).slots.toList =
      h.parameters.map (fun p => ⟨p.valueIn arguments, true⟩) ++
        List.replicate h.locals (Frame.blank track) := by
  simp [bind]

/-- **Binding in turn never fails**, and gives the frame that is laid out at once. -/
theorem bindInTurn_eq : h.bindInTurn track arguments = .ok (h.bind track arguments) := by
  have fits : h.frameSize ≤ Limits.locals := h.frameSize_le
  let blanks : Frame :=
    ⟨Array.replicate h.frameSize (Frame.blank track), by simpa using fits⟩
  have made : Frame.ofSize track h.frameSize = .ok blanks := dif_pos fits
  have layout : blanks.slots.toList = [] ++
      (List.replicate h.parameters.length (Frame.blank track) ++
        List.replicate h.locals (Frame.blank track)) := by
    simp [blanks, frameSize, Nat.add_comm]
  obtain ⟨f, filled, layout⟩ := Frame.fill_of_blank arguments h.parameters layout
  have same : f = h.bind track arguments := by
    apply Frame.eq_of_toList
    rw [layout, toList_bind]
    rfl
  rw [bindInTurn, made]
  exact filled.trans (congrArg Except.ok same)

theorem size_bind : (h.bind track arguments).size = h.frameSize := by
  rw [Frame.size, ← Array.length_toList, toList_bind]
  simp [frameSize, Nat.add_comm]

/-- The slot of a parameter. -/
theorem slot_parameter {i : Nat} {p : Parameter} (declared : h.parameters[i]? = some p) :
    (h.bind track arguments).slots[i]? = some ⟨p.valueIn arguments, true⟩ := by
  have lt := (List.getElem?_eq_some_iff.mp declared).1
  rw [← Array.getElem?_toList, toList_bind, List.getElem?_append_left (by simpa using lt)]
  simp [declared]

/-- The slot of a plain local. -/
theorem slot_local {i : Nat} (behind : h.parameters.length ≤ i) (lt : i < h.frameSize) :
    (h.bind track arguments).slots[i]? = some (Frame.blank track) := by
  rw [← Array.getElem?_toList, toList_bind, List.getElem?_append_right (by simpa using behind)]
  have inside : i - h.parameters.length < h.locals := by
    have lt' : i < h.locals + h.parameters.length := lt
    omega
  rw [List.length_map, List.getElem?_replicate, if_pos inside]

theorem isUnwritten_bind (index : UInt32) :
    (h.bind track arguments).isUnwritten index = true ↔
      track = true ∧ h.parameters.length ≤ index.toNat ∧ index.toNat < h.frameSize := by
  unfold Frame.isUnwritten
  by_cases lt : index.toNat < h.frameSize
  · by_cases declared : index.toNat < h.parameters.length
    · rw [h.slot_parameter track arguments (List.getElem?_eq_getElem declared)]
      simp
      omega
    · rw [h.slot_local track arguments (by omega) lt]
      simp [Frame.blank, lt]
      omega
  · have outside : (h.bind track arguments).slots[index.toNat]? = none := by
      rw [Array.getElem?_eq_none_iff, ← Frame.size, size_bind]
      omega
    rw [outside]
    simp
    omega

/-- Is there a parameter for the name? -/
def declares (name : ParameterId) : Bool := h.parameters.any fun p => p.id = name

/-- The frame depends on the values of the parameters alone. -/
theorem bind_congr {others : List Argument}
    (same : ∀ p ∈ h.parameters, p.valueIn others = p.valueIn arguments) :
    h.bind track others = h.bind track arguments := by
  apply Frame.eq_of_toList
  rw [toList_bind, toList_bind, List.map_congr_left fun p mem => by rw [same p mem]]

/-- **Arguments are bound by name.**  Binding never fails.  The frame has a slot for each parameter
and each plain local.  A parameter has the value of the first argument of its name, or its default
if there is none; a plain local is nil.  If writes are tracked, the plain locals and nothing else
count as unwritten, and otherwise nothing does.

Arguments that no parameter asks for do not matter, nor does the order of arguments with distinct
names. -/
theorem bind_by_name (h : Handler) (track : Bool) (arguments : List Argument) :
    let f := Handler.bind h track arguments
    Handler.bindInTurn h track arguments = .ok f ∧
    f.size = h.frameSize ∧
    (∀ (index : UInt32) p, h.parameters[index.toNat]? = some p →
      ∃ v, f.get index = .ok v ∧ Parameter.Takes p arguments v) ∧
    (∀ index : UInt32, h.parameters.length ≤ index.toNat → index.toNat < h.frameSize →
      f.get index = .ok .nil) ∧
    (∀ index : UInt32, f.isUnwritten index = true ↔
      track = true ∧ h.parameters.length ≤ index.toNat ∧ index.toNat < h.frameSize) ∧
    (∀ others : List Argument,
      others.filter (fun a => h.declares a.name) = arguments.filter (fun a => h.declares a.name) →
        h.bind track others = f) ∧
    (∀ others : List Argument, (arguments.map Argument.name).Nodup → arguments.Perm others →
      h.bind track others = f) := by
  intro f
  refine ⟨h.bindInTurn_eq track arguments, h.size_bind track arguments, ?_, ?_,
    h.isUnwritten_bind track arguments, ?_, ?_⟩
  · intro index p declared
    refine ⟨p.valueIn arguments, ?_, p.takes_valueIn arguments⟩
    rw [Frame.get, h.slot_parameter track arguments declared]
  · intro index behind lt
    rw [Frame.get, h.slot_local track arguments behind lt]
    rfl
  · intro others same
    refine h.bind_congr track arguments fun p mem => ?_
    have kept (a : Argument) (named : a.name = p.id) : h.declares a.name = true :=
      List.any_eq_true.mpr ⟨p, mem, by simp [named]⟩
    rw [← Parameter.valueIn_filter kept, same, Parameter.valueIn_filter kept]
  · intro others distinct perm
    exact h.bind_congr track arguments fun p _ => Parameter.valueIn_perm distinct perm

/-- A handler with the parameters 1 and 3, whose defaults are 10 and 20, and with
one plain local. -/
def difference : Handler where
  locals := 1
  parameters := [⟨⟨1⟩, .int 10⟩, ⟨⟨3⟩, .int 20⟩]
  frameSize_le := by decide
  id := ⟨1⟩
  name := "Difference"
  body := #[1, 2, 1, 0, 0, 0, 10, 0, 0, 0x10, 3, 0, 0, 0, 20, 0, 0, 0x10]

/-- An argument that nothing asks for, and another order. -/
theorem bind_by_name_difference :
    let passed : List Argument := [⟨⟨3⟩, .int 1⟩, ⟨⟨99⟩, .nil⟩]
    Handler.ofBody ⟨1⟩ "Difference" difference.body = .ok difference ∧
    (∃ v, (difference.bind true passed).get 0 = .ok v ∧ Parameter.Takes ⟨⟨1⟩, .int 10⟩ passed v) ∧
    (difference.bind true passed).get 2 = .ok .nil ∧
    difference.bind true [⟨⟨3⟩, .int 1⟩] = difference.bind true passed ∧
    difference.bind true passed.reverse = difference.bind true passed := by
  intro passed
  obtain ⟨-, -, parameters, locals, -, undeclared, permuted⟩ :=
    bind_by_name difference true passed
  exact ⟨rfl, parameters 0 _ rfl, locals 2 (by decide) (by decide), undeclared _ (by decide),
    permuted _ (by decide) (List.reverse_perm passed).symm⟩

end Handler

end MessageMachine
