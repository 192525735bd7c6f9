import MessageMachine.Proofs.Directory

/-!
# Superclass chains

`Directory.Chain d start cs` says that `cs` are the classes from `start` upwards.  The chain ends at
a class without a superclass, or with one that the directory does not hold; one that runs in a
circle has no such list.  Of the classes on a chain those count that define a message, the
*definers*: the search for a handler finds the first of them (`Directory.findHandler_eq_head?`), and
what comes behind it on the chain is the chain from its superclass (`Directory.Chain.above`).

A search looks at the *outline* of classes, which is all but the values of their variables.
-/

namespace MessageMachine

/-- The class and its handler for a message, if it defines one. -/
def Class.definer? (c : Class) (message : MessageId) : Option (Class × Handler) :=
  (c.handler? message).map fun h => (c, h)

theorem Class.definer?_eq_some_iff {c : Class} {message : MessageId} {p : Class × Handler} :
    c.definer? message = some p ↔ p.1 = c ∧ c.handler? message = some p.2 := by
  unfold definer?
  rw [Option.map_eq_some_iff]
  constructor
  · rintro ⟨h, defines, rfl⟩
    exact ⟨rfl, defines⟩
  · rintro ⟨rfl, defines⟩
    exact ⟨p.2, defines, rfl⟩

namespace Directory

/-- `cs` are the classes from `start` upwards. -/
inductive Chain (d : Directory) : Option ClassId → List Class → Prop where
  /-- There is no superclass. -/
  | root : d.Chain none []
  /-- The superclass is not in the directory. -/
  | missing {id : ClassId} (h : d.get? id = none) : d.Chain (some id) []
  | step {id : ClassId} {c : Class} {cs : List Class} (h : d.get? id = some c)
      (rest : d.Chain c.parent cs) : d.Chain (some id) (c :: cs)

/-- The classes that define a message, with their handlers for it. -/
def definers (message : MessageId) (cs : List Class) : List (Class × Handler) :=
  cs.filterMap fun c => c.definer? message

theorem definers_cons (message : MessageId) (c : Class) (cs : List Class) :
    definers message (c :: cs) =
      match c.handler? message with
      | some h => (c, h) :: definers message cs
      | none => definers message cs := by
  unfold definers
  rw [List.filterMap_cons, Class.definer?]
  cases c.handler? message <;> rfl

/-- A definer stands on the chain, below it none but classes that do not define the message, and
above it the other definers. -/
theorem definers_eq_cons_iff {message : MessageId} {cs : List Class} {c : Class} {h : Handler}
    {others : List (Class × Handler)} :
    definers message cs = (c, h) :: others ↔
      ∃ below above, cs = below ++ c :: above ∧ (∀ b ∈ below, b.handler? message = none) ∧
        c.handler? message = some h ∧ definers message above = others := by
  unfold definers
  rw [List.filterMap_eq_cons_iff]
  constructor
  · rintro ⟨below, a, above, rfl, none, defines, rest⟩
    obtain ⟨rfl, defines⟩ := Class.definer?_eq_some_iff.mp defines
    exact ⟨below, above, rfl, fun b mem => Option.map_eq_none_iff.mp (none b mem), defines, rest⟩
  · rintro ⟨below, above, rfl, none, defines, rest⟩
    exact ⟨below, c, above, rfl, fun b mem => Option.map_eq_none_iff.mpr (none b mem),
      Class.definer?_eq_some_iff.mpr ⟨rfl, defines⟩, rest⟩

variable {d : Directory}

/-- What stands behind a class on a chain is the chain from its superclass. -/
theorem Chain.above {start : Option ClassId} {below above : List Class} {c : Class}
    (chain : d.Chain start (below ++ c :: above)) : d.Chain c.parent above := by
  induction below generalizing start with
  | nil =>
    cases chain with
    | step _ rest => exact rest
  | cons b below ih =>
    cases chain with
    | step _ rest => exact ih rest

/-! ## The search for a handler -/

theorem findUpwards_eq_head? (message : MessageId) (steps : Nat) {id : ClassId} {cs : List Class}
    (chain : d.Chain (some id) cs) (short : cs.length ≤ steps) :
    d.findUpwards message steps id = (definers message cs).head? := by
  induction steps generalizing id cs with
  | zero =>
    rw [List.length_eq_zero_iff.mp (Nat.le_zero.mp short)]
    rfl
  | succ steps ih =>
    unfold findUpwards
    cases chain with
    | missing h =>
      rw [h]
      rfl
    | @step _ c cs h rest =>
      rw [h, definers_cons]
      dsimp only
      cases c.handler? message with
      | some handler => rfl
      | none =>
        cases parent : c.parent with
        | none =>
          rw [parent] at rest
          cases rest
          rfl
        | some p =>
          rw [parent] at rest
          exact ih rest (Nat.le_of_succ_le_succ short)

/-- **The search finds the first definer on the chain**, if the chain is no longer
than the limit. -/
theorem findHandler_eq_head? (message : MessageId) {id : ClassId} {cs : List Class}
    (chain : d.Chain (some id) cs) (short : cs.length ≤ Limits.classChain) :
    d.findHandler id message = (definers message cs).head? :=
  findUpwards_eq_head? message _ chain short

/-- What is found is a class on the chain with its handler for the message, where no class below it
defines the message. -/
theorem findHandler_eq_some_iff {message : MessageId} {id : ClassId} {cs : List Class}
    (chain : d.Chain (some id) cs) (short : cs.length ≤ Limits.classChain) {c : Class}
    {h : Handler} :
    d.findHandler id message = some (c, h) ↔
      ∃ below above, cs = below ++ c :: above ∧ (∀ b ∈ below, b.handler? message = none) ∧
        c.handler? message = some h := by
  rw [findHandler_eq_head? message chain short, List.head?_eq_some_iff]
  constructor
  · rintro ⟨others, split⟩
    obtain ⟨below, above, e, none, defines, -⟩ := definers_eq_cons_iff.mp split
    exact ⟨below, above, e, none, defines⟩
  · rintro ⟨below, above, e, none, defines⟩
    exact ⟨_, definers_eq_cons_iff.mpr ⟨below, above, e, none, defines, rfl⟩⟩

end Directory

/-! ## Outlines -/

/-- The class without the values of its variables. -/
def Class.outline (c : Class) : Class := { c with vars := #[] }

theorem Class.handler?_of_outline {c c' : Class} (h : c'.outline = c.outline)
    (message : MessageId) : c'.handler? message = c.handler? message := by
  have handlers : c'.handlers = c.handlers := (Class.mk.inj h).2.2.2.2.2
  rw [handler?, handlers, handler?]

theorem Class.parent_of_outline {c c' : Class} (h : c'.outline = c.outline) :
    c'.parent = c.parent :=
  (Class.mk.inj h).2.2.1

theorem Class.id_of_outline {c c' : Class} (h : c'.outline = c.outline) : c'.id = c.id :=
  (Class.mk.inj h).1

/-- The same classes are held, up to the values of their variables. -/
def Directory.SameOutline (d d' : Directory) : Prop :=
  ∀ id, (d.get? id).map Class.outline = (d'.get? id).map Class.outline

namespace Directory.SameOutline

variable {d d' d'' : Directory}

theorem refl (d : Directory) : d.SameOutline d := fun _ => rfl

theorem trans (h : d.SameOutline d') (h' : d'.SameOutline d'') : d.SameOutline d'' :=
  fun id => (h id).trans (h' id)

theorem of_eq (h : d' = d) : d.SameOutline d' := h ▸ refl d

theorem findUpwards (h : d.SameOutline d') (message : MessageId) (steps : Nat) (id : ClassId) :
    (d.findUpwards message steps id).map (Prod.map Class.outline fun handler => handler) =
      (d'.findUpwards message steps id).map (Prod.map Class.outline fun handler => handler) := by
  induction steps generalizing id with
  | zero => rfl
  | succ steps ih =>
    have same := h id
    unfold Directory.findUpwards
    cases found : d.get? id with
    | none =>
      rw [found] at same
      rw [Option.map_eq_none_iff.mp same.symm]
    | some c =>
      rw [found] at same
      obtain ⟨c', found', outline⟩ := Option.map_eq_some_iff.mp same.symm
      rw [found']
      dsimp only
      rw [Class.handler?_of_outline outline, Class.parent_of_outline outline]
      cases c.handler? message with
      | some handler => exact congrArg (fun c => some (c, handler)) outline.symm
      | none =>
        cases c.parent with
        | none => rfl
        | some p => exact ih p

/-- The search finds the same handler, in a class of the same outline. -/
theorem findHandler_of_some (h : d.SameOutline d') {message : MessageId} {id : ClassId} {c : Class}
    {handler : Handler} (found : d.findHandler id message = some (c, handler)) :
    ∃ c', d'.findHandler id message = some (c', handler) ∧ c'.outline = c.outline := by
  have same := h.findUpwards message Limits.classChain id
  rw [show d.findUpwards _ _ _ = _ from found] at same
  obtain ⟨⟨c', handler'⟩, found', outline⟩ := Option.map_eq_some_iff.mp same.symm
  cases congrArg Prod.snd outline
  exact ⟨c', found', congrArg Prod.fst outline⟩

theorem findHandler_of_none (h : d.SameOutline d') {message : MessageId} {id : ClassId}
    (missing : d.findHandler id message = none) : d'.findHandler id message = none := by
  have same := h.findUpwards message Limits.classChain id
  rw [show d.findUpwards _ _ _ = _ from missing] at same
  exact Option.map_eq_none_iff.mp same.symm

end Directory.SameOutline

end MessageMachine
