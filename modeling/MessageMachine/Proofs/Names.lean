import Mathlib.Data.List.Induction
import MessageMachine.Proofs.Directory

/-!
# The index of names

The directory keeps its index of names beside its records, and what it does to the one follows from
what it does to the other only as far as names are not shared.  A class that is inserted is entered
under its name.  A class that is removed, or replaced by one of another name, *gives up* its name,
and the entry of that name goes, also when it points at another class that bears the name still.

`Directory.byName?_after` says what this comes to over any history of insertions and removals.  An
entry never goes stale: the class that is found bears the name, and is the one inserted last under
it.  But a name is found only until the next time that some class gives it up, so a class may live
on that its name does not lead to (`Directory.shared_name_lost`).  Where a name is never borne by
two classes at a time this cannot happen (`Directory.byName?_of_unshared`).
-/

namespace MessageMachine

namespace Directory

/-! ## Changes -/

/-- What is done to the classes of a directory. -/
inductive Change where
  /-- A class is inserted, under a new number or in the place of another edition. -/
  | insert (c : Class)
  | remove (id : ClassId)

/-- The directory after a change. -/
def change (d : Directory) : Change → Directory
  | .insert c => d.insert c
  | .remove id => d.remove id

/-- The directory after changes, the first of which is made to an empty one. -/
def after (changes : List Change) : Directory := changes.foldl change {}

/-- A class is inserted under the name. -/
def Change.Enters (name : String) : Change → Prop
  | .insert c => c.name = name
  | .remove _ => False

/-- A class of `d` that bears the name is removed, or replaced by one of another name. -/
def Change.GivesUp (d : Directory) (name : String) : Change → Prop
  | .insert c => c.name ≠ name ∧ ∃ old, d.get? c.id = some old ∧ old.name = name
  | .remove id => ∃ old, d.get? id = some old ∧ old.name = name

theorem after_concat (changes : List Change) (x : Change) :
    after (changes ++ [x]) = (after changes).change x := by
  rw [after, List.foldl_append]
  rfl

/-! ## Entries -/

/-- The number that the index has for a name. -/
def listed? (d : Directory) (name : String) : Option ClassId :=
  (d.names.find? fun entry => entry.1 = name).map Prod.snd

theorem byName?_eq (d : Directory) (name : String) :
    d.byName? name = (d.listed? name).bind d.get? := by
  unfold byName? listed?
  cases d.names.find? fun entry => entry.1 = name <;> rfl

theorem find?_namesWithout (d : Directory) (name name' : String) :
    (d.namesWithout name).find? (fun entry => entry.1 = name') =
      if name = name' then none else d.names.find? fun entry => entry.1 = name' := by
  rw [namesWithout, List.find?_filter]
  split
  · subst name'
    rw [List.find?_eq_none]
    simp
  · rename_i other
    refine congrArg (List.find? · d.names) (funext fun entry => ?_)
    rw [Bool.eq_iff_iff]
    simp only [decide_eq_true_eq]
    exact ⟨And.right, fun same => ⟨fun h => other (h.symm.trans same), same⟩⟩

theorem listed?_forgetName (d : Directory) (name name' : String) :
    (d.forgetName name).listed? name' = if name = name' then none else d.listed? name' := by
  show ((d.namesWithout name).find? _).map _ = _
  rw [find?_namesWithout, apply_ite (Option.map Prod.snd)]
  rfl

/-- A class that is inserted is entered under its name. -/
theorem listed?_of_enters {d : Directory} {c : Class} {name : String} (enters : c.name = name) :
    (d.insert c).listed? name = some c.id := by
  have names (d : Directory) :
      (d.namesWithout c.name ++ [(c.name, c.id)]).find? (fun entry => entry.1 = name) =
        some (c.name, c.id) := by
    rw [List.find?_append, find?_namesWithout, if_pos enters]
    simp [enters]
  unfold listed? insert
  rw [names]
  rfl

/-- What is entered under a name that is given up is lost. -/
theorem listed?_of_givesUp {d : Directory} {name : String} {x : Change} (h : x.GivesUp d name) :
    (d.change x).listed? name = none := by
  cases x with
  | insert c =>
    obtain ⟨other, old, found, rfl⟩ := h
    have renamed : old.name ≠ c.name := fun same => other same.symm
    show (Option.map Prod.snd (List.find? _ (d.insert c).names)) = none
    unfold insert
    rw [found]
    simp only [if_neg renamed, List.find?_append, find?_namesWithout, if_neg other, forgetName]
    simp [other]
  | remove id =>
    obtain ⟨old, found, rfl⟩ := h
    show (d.remove id).listed? old.name = none
    unfold remove
    rw [found]
    exact (listed?_forgetName d old.name old.name).trans (if_pos rfl)

/-- A name that a change neither enters nor gives up keeps its entry. -/
theorem listed?_of_spares {d : Directory} {name : String} {x : Change} (enters : ¬ x.Enters name)
    (givesUp : ¬ x.GivesUp d name) : (d.change x).listed? name = d.listed? name := by
  cases x with
  | insert c =>
    have other : c.name ≠ name := enters
    have names (d' : Directory) (same : d'.listed? name = d.listed? name) :
        ((d'.namesWithout c.name ++ [(c.name, c.id)]).find?
          (fun entry => entry.1 = name)).map Prod.snd = d.listed? name := by
      rw [List.find?_append, find?_namesWithout, if_neg other, ← same]
      simp [other, listed?]
    show (Option.map Prod.snd (List.find? _ (d.insert c).names)) = _
    unfold insert
    cases found : d.get? c.id with
    | none => exact names d rfl
    | some old =>
      have kept : old.name ≠ name := fun same => givesUp ⟨other, old, found, same⟩
      dsimp only
      split
      · exact names d rfl
      · exact names _ ((listed?_forgetName d old.name name).trans (if_neg kept))
  | remove id =>
    show (d.remove id).listed? name = d.listed? name
    unfold remove
    cases found : d.get? id with
    | none => rfl
    | some old =>
      have kept : old.name ≠ name := fun same => givesUp ⟨old, found, same⟩
      exact (listed?_forgetName d old.name name).trans (if_neg kept)

/-! ## Faithful entries -/

/-- Every entry points at a class that bears the name. -/
def Faithful (d : Directory) : Prop :=
  ∀ name id, d.listed? name = some id → ∃ c, d.get? id = some c ∧ c.name = name

theorem faithful_empty : Faithful {} := fun _ _ h => by cases h

/-- A class that bears a name is left alone by a change that neither enters nor gives
up the name. -/
theorem get?_of_spares {d : Directory} {name : String} {x : Change} (enters : ¬ x.Enters name)
    (givesUp : ¬ x.GivesUp d name) {id : ClassId} {c : Class} (bears : c.name = name) :
    (d.change x).get? id = some c ↔ d.get? id = some c := by
  cases x with
  | insert c' =>
    rw [change, get?_insert]
    by_cases here : c'.id = id
    · rw [if_pos here]
      refine iff_of_false (fun same => ?_) fun found => ?_
      · cases same
        exact enters bears
      · exact givesUp ⟨enters, c, here ▸ found, bears⟩
    · rw [if_neg here]
  | remove id' =>
    rw [change, get?_remove]
    by_cases here : id' = id
    · rw [if_pos here]
      exact iff_of_false (fun h => by cases h) fun found => givesUp ⟨c, here ▸ found, bears⟩
    · rw [if_neg here]

/-- **Entries stay faithful.** -/
theorem Faithful.change {d : Directory} (h : d.Faithful) (x : Change) : (d.change x).Faithful := by
  intro name id entry
  by_cases enters : x.Enters name
  · cases x with
    | remove => cases enters
    | insert c =>
      have same : some c.id = some id := (listed?_of_enters enters).symm.trans entry
      cases same
      exact ⟨c, (get?_insert d c c.id).trans (if_pos rfl), enters⟩
  by_cases givesUp : x.GivesUp d name
  · rw [listed?_of_givesUp givesUp] at entry
    cases entry
  rw [listed?_of_spares enters givesUp] at entry
  obtain ⟨c, found, bears⟩ := h name id entry
  exact ⟨c, (get?_of_spares enters givesUp bears).mpr found, bears⟩

theorem faithful_after (changes : List Change) : (after changes).Faithful := by
  induction changes using List.reverseRecOn with
  | nil => exact faithful_empty
  | append_singleton changes x ih =>
    rw [after_concat]
    exact ih.change x

/-- The class that a name leads to bears it, and is held under its number. -/
theorem Faithful.of_byName? {d : Directory} (h : d.Faithful) {name : String} {c : Class}
    (found : d.byName? name = some c) : c.name = name ∧ d.get? c.id = some c := by
  rw [byName?_eq] at found
  obtain ⟨id, entry, held⟩ := Option.bind_eq_some_iff.mp found
  obtain ⟨c', held', bears⟩ := h name id entry
  rw [held] at held'
  cases held'
  exact ⟨bears, (id_of_get? held).symm ▸ held⟩

/-! ## What a name leads to -/

section

variable {d : Directory} {name : String} {x : Change}

theorem byName?_of_enters {c : Class} (enters : c.name = name) :
    (d.change (.insert c)).byName? name = some c := by
  rw [byName?_eq, change, listed?_of_enters enters]
  exact (get?_insert d c c.id).trans (if_pos rfl)

theorem byName?_of_givesUp (givesUp : x.GivesUp d name) : (d.change x).byName? name = none := by
  rw [byName?_eq, listed?_of_givesUp givesUp]
  rfl

theorem byName?_of_spares (h : d.Faithful) (enters : ¬ x.Enters name)
    (givesUp : ¬ x.GivesUp d name) : (d.change x).byName? name = d.byName? name := by
  rw [byName?_eq, byName?_eq, listed?_of_spares enters givesUp]
  cases entry : d.listed? name with
  | none => rfl
  | some id =>
    obtain ⟨c, found, bears⟩ := h name id entry
    exact ((get?_of_spares enters givesUp bears).mpr found).trans found.symm

end

/-- A place in a history with one more change is the last one, or a place in the history before. -/
theorem concat_eq_append_cons {changes before later : List Change} {x y : Change}
    (h : changes ++ [x] = before ++ y :: later) :
    (changes = before ∧ x = y ∧ later = []) ∨
      ∃ later', later = later' ++ [x] ∧ changes = before ++ y :: later' := by
  rcases List.eq_nil_or_concat later with rfl | ⟨later', z, rfl⟩
  · obtain ⟨rfl, same⟩ := List.append_inj' h rfl
    cases same
    exact .inl ⟨rfl, rfl, rfl⟩
  · rw [List.concat_eq_append, ← List.cons_append, ← List.append_assoc] at h
    obtain ⟨rfl, same⟩ := List.append_inj' h rfl
    cases same
    exact .inr ⟨later', List.concat_eq_append, rfl⟩

/-- None of the changes enters the name. -/
def Untold (name : String) (changes : List Change) : Prop := ∀ y ∈ changes, ¬ y.Enters name

theorem untold_concat {name : String} {changes : List Change} {x : Change} :
    Untold name (changes ++ [x]) ↔ Untold name changes ∧ ¬ x.Enters name := by
  unfold Untold
  rw [List.forall_mem_append, List.forall_mem_singleton]

/-- The class that is found is the one inserted last under the name. -/
theorem exists_insert_of_byName? {changes : List Change} {name : String} {c : Class}
    (found : (after changes).byName? name = some c) :
    ∃ before later, changes = before ++ .insert c :: later ∧ Untold name later := by
  induction changes using List.reverseRecOn with
  | nil => cases found
  | append_singleton changes x ih =>
    rw [after_concat] at found
    by_cases enters : x.Enters name
    · cases x with
      | remove => cases enters
      | insert c' =>
        rw [byName?_of_enters enters] at found
        cases found
        exact ⟨changes, [], rfl, fun y mem => by cases mem⟩
    by_cases givesUp : x.GivesUp (after changes) name
    · rw [byName?_of_givesUp givesUp] at found
      cases found
    rw [byName?_of_spares (faithful_after changes) enters givesUp] at found
    obtain ⟨before, later, rfl, untold⟩ := ih found
    exact ⟨before, later ++ [x], by simp, untold_concat.mpr ⟨untold, enters⟩⟩

/-- Some class that bore the name has given it up, and none was inserted under it since. -/
def Lost (name : String) (changes : List Change) : Prop :=
  ∃ before x later, changes = before ++ x :: later ∧ x.GivesUp (after before) name ∧
    Untold name later

/-- A name is lost when it is given up, and stays lost until it is entered. -/
theorem lost_concat {name : String} {changes : List Change} {x : Change} :
    Lost name (changes ++ [x]) ↔
      x.GivesUp (after changes) name ∨ Lost name changes ∧ ¬ x.Enters name := by
  constructor
  · rintro ⟨before, y, later, split, givesUp, untold⟩
    rcases concat_eq_append_cons split with ⟨rfl, rfl, rfl⟩ | ⟨later', rfl, rfl⟩
    · exact .inl givesUp
    · obtain ⟨untold, enters⟩ := untold_concat.mp untold
      exact .inr ⟨⟨before, y, later', rfl, givesUp, untold⟩, enters⟩
  · rintro (givesUp | ⟨⟨before, y, later, rfl, givesUp, untold⟩, enters⟩)
    · exact ⟨changes, x, [], rfl, givesUp, fun y mem => by cases mem⟩
    · exact ⟨before, y, later ++ [x], by simp, givesUp, untold_concat.mpr ⟨untold, enters⟩⟩

theorem Change.not_enters_of_givesUp {d : Directory} {name : String} {x : Change}
    (givesUp : x.GivesUp d name) : ¬ x.Enters name := by
  cases x with
  | insert c => exact givesUp.1
  | remove id => exact fun h => h

/-- No class is found under a name that was never entered, and under one that is lost. -/
theorem byName?_eq_none_iff (changes : List Change) (name : String) :
    (after changes).byName? name = none ↔ Untold name changes ∨ Lost name changes := by
  induction changes using List.reverseRecOn with
  | nil => exact iff_of_true rfl (.inl fun y mem => by cases mem)
  | append_singleton changes x ih =>
    rw [after_concat, untold_concat, lost_concat]
    by_cases enters : x.Enters name
    · have found : (((after changes).change x).byName? name).isSome := by
        cases x with
        | remove => cases enters
        | insert c => rw [byName?_of_enters enters]; rfl
      refine iff_of_false (fun none => by rw [none] at found; cases found) ?_
      rintro (⟨-, h⟩ | givesUp | ⟨-, h⟩)
      · exact h enters
      · exact Change.not_enters_of_givesUp givesUp enters
      · exact h enters
    by_cases givesUp : x.GivesUp (after changes) name
    · exact iff_of_true (byName?_of_givesUp givesUp) (.inr (.inl givesUp))
    · rw [byName?_of_spares (faithful_after changes) enters givesUp, ih]
      simp only [enters, givesUp, not_false_eq_true, and_true, false_or]

/-- **What a name leads to**, after any changes and for any name.  The class that is found bears the
name, is held under its number, and is the one inserted last under the name.  None is found just
when none was inserted under the name, or some class that bore the name has given it up after the
last such insertion.

Whether a class bears the name still does not matter. -/
theorem byName?_after (changes : List Change) (name : String) :
    (∀ c, (after changes).byName? name = some c →
      c.name = name ∧ (after changes).get? c.id = some c ∧
        ∃ before later, changes = before ++ .insert c :: later ∧ Untold name later) ∧
    ((after changes).byName? name = none ↔ Untold name changes ∨ Lost name changes) := by
  refine ⟨fun c found => ?_, byName?_eq_none_iff changes name⟩
  obtain ⟨bears, held⟩ := (faithful_after changes).of_byName? found
  exact ⟨bears, held, exists_insert_of_byName? found⟩

/-- **A live class can be lost to its name.**  Two classes bear the name `A`.  When the first is
removed, or inserted anew under another name, the second is live and bears the name still, but the
name leads nowhere. -/
theorem shared_name_lost :
    let first : Class := { id := ⟨1⟩, name := "A" }
    let second : Class := { id := ⟨2⟩, name := "A" }
    let removed := after [.insert first, .insert second, .remove first.id]
    let renamed := after [.insert first, .insert second, .insert { first with name := "B" }]
    removed.get? second.id = some second ∧ removed.byName? second.name = none ∧
      renamed.get? second.id = some second ∧ renamed.byName? second.name = none :=
  ⟨rfl, rfl, rfl, rfl⟩

/-- No two classes bear the name. -/
def Unshared (d : Directory) (name : String) : Prop :=
  ∀ c c', d.get? c.id = some c → d.get? c'.id = some c' → c.name = name → c'.name = name →
    c.id = c'.id

/-- **A name that is never shared leads to the class that bears it.** -/
theorem byName?_of_unshared (changes : List Change) {name : String}
    (unshared : ∀ before, before <+: changes → (after before).Unshared name) {c : Class}
    (live : (after changes).get? c.id = some c) (bears : c.name = name) :
    (after changes).byName? name = some c := by
  induction changes using List.reverseRecOn with
  | nil => cases live
  | append_singleton changes x ih =>
    have now := unshared _ List.prefix_rfl
    have before := unshared changes (List.prefix_append changes [x])
    rw [after_concat] at live now ⊢
    by_cases enters : x.Enters name
    · cases x with
      | remove => cases enters
      | insert c' =>
        -- the class that bears the name now is the one just inserted
        have held : ((after changes).change (.insert c')).get? c'.id = some c' :=
          (get?_insert _ c' c'.id).trans (if_pos rfl)
        have same := now c c' live held bears enters
        rw [same, held] at live
        cases live
        exact byName?_of_enters enters
    by_cases givesUp : x.GivesUp (after changes) name
    · -- the class that gave the name up was the only one
      exfalso
      cases x with
      | remove id =>
        obtain ⟨old, found, bore⟩ := givesUp
        rw [change, get?_remove] at live
        split at live
        · cases live
        · rename_i other
          have number := id_of_get? found
          exact other (number.symm.trans
            (before old c (number.symm ▸ found) live bore bears))
      | insert c' =>
        obtain ⟨renamed, old, found, bore⟩ := givesUp
        rw [change, get?_insert] at live
        split at live
        · cases live
          exact renamed bears
        · rename_i other
          have number := id_of_get? found
          exact other (number.symm.trans
            (before old c (number.symm ▸ found) live bore bears))
    rw [byName?_of_spares (faithful_after changes) enters givesUp]
    refine ih (fun b h => unshared b (h.trans (List.prefix_append changes [x]))) ?_
    exact (get?_of_spares enters givesUp bears).mp live

end Directory

end MessageMachine
