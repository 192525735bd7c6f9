import MessageMachine.Proofs.Names

/-!
# The entries of the index of names

A name that is shared may lose its entry to another class that bears it
(`Directory.shared_name_lost`).  What never happens is the opposite: no entry is left behind for a
class that is gone or has another name.

Behind this are two facts about the index.  A name has one entry at most
(`Directory.NamedOnce`), so what is listed can be found; and what is listed is faithful, as
`Proofs.Names` has it.  An entry of the index is then as good as the record that it points at,
to its very edition (`Directory.index_never_dangles`).

Since a name leads only to classes that bear it, a class that has lost a name is not found under it
again before it is inserted under it again (`Directory.Bears.of_append`).  It does not matter what
becomes of the entry meanwhile.
-/

namespace MessageMachine

namespace Directory

/-! ## Records by name -/

/-- The record that a name leads to. -/
def recordByName? (d : Directory) (name : String) : Option Record :=
  (d.listed? name).bind d.record?

theorem byName?_eq_map (d : Directory) (name : String) :
    d.byName? name = (d.recordByName? name).map Record.cls := by
  rw [byName?_eq, recordByName?, Option.map_bind]
  rfl

theorem record?_insert (d : Directory) (c : Class) :
    (d.insert c).record? c.id = some (d.nextRecord c) := by
  rw [record?, records_insert, List.find?_append, find?_recordsWithout, if_pos rfl]
  simp [nextRecord]

/-- A class that has just been inserted is found under its name, as the edition that it is. -/
theorem recordByName?_insert (d : Directory) (c : Class) :
    (d.insert c).recordByName? c.name = some (d.nextRecord c) := by
  rw [recordByName?, listed?_of_enters rfl]
  exact d.record?_insert c

/-! ## One entry for each name -/

/-- No name has two entries. -/
def NamedOnce (d : Directory) : Prop := (d.names.map Prod.fst).Nodup

theorem namedOnce_empty : NamedOnce {} := List.nodup_nil

/-- An insertion adds one entry, and takes others away, those of its name among them. -/
theorem names_insert (d : Directory) (c : Class) :
    ∃ kept, kept.Sublist d.names ∧ (∀ entry ∈ kept, entry.1 ≠ c.name) ∧
      (d.insert c).names = kept ++ [(c.name, c.id)] := by
  have without (d' : Directory) (fewer : d'.names.Sublist d.names) :
      (d'.namesWithout c.name).Sublist d.names ∧
        ∀ entry ∈ d'.namesWithout c.name, entry.1 ≠ c.name := by
    refine ⟨List.filter_sublist.trans fewer, fun entry mem => ?_⟩
    exact of_decide_eq_true (List.mem_filter.mp mem).2
  unfold insert
  cases d.get? c.id with
  | none => exact ⟨_, (without d (.refl _)).1, (without d (.refl _)).2, rfl⟩
  | some old =>
    dsimp only
    split
    · exact ⟨_, (without d (.refl _)).1, (without d (.refl _)).2, rfl⟩
    · have fewer : (d.forgetName old.name).names.Sublist d.names := List.filter_sublist
      exact ⟨_, (without _ fewer).1, (without _ fewer).2, rfl⟩

namespace NamedOnce

variable {d : Directory}

theorem change (h : d.NamedOnce) (x : Change) : (d.change x).NamedOnce := by
  cases x with
  | insert c =>
    obtain ⟨kept, fewer, others, names⟩ := d.names_insert c
    show ((d.insert c).names.map Prod.fst).Nodup
    rw [names, List.map_append, List.nodup_append]
    refine ⟨h.sublist (fewer.map _), List.nodup_singleton _, ?_⟩
    intro name mem name' mem' same
    obtain ⟨entry, hentry, rfl⟩ := List.mem_map.mp mem
    rw [List.map_singleton, List.mem_singleton] at mem'
    exact others entry hentry (same.trans mem')
  | remove id =>
    show ((d.remove id).names.map Prod.fst).Nodup
    unfold remove
    cases d.get? id with
    | none => exact h
    | some c => exact h.sublist (List.filter_sublist.map _)

/-- An entry is what is listed for its name. -/
theorem listed?_of_mem (h : d.NamedOnce) {name : String} {id : ClassId}
    (entry : (name, id) ∈ d.names) : d.listed? name = some id := by
  unfold NamedOnce at h
  unfold listed?
  generalize d.names = names at h entry
  induction names with
  | nil => cases entry
  | cons first others ih =>
    rw [List.map_cons, List.nodup_cons] at h
    rcases List.mem_cons.mp entry with rfl | entry
    · simp
    · have other : first.1 ≠ name := fun same =>
        h.1 (same ▸ List.mem_map_of_mem entry)
      simpa [other] using ih h.2 entry

end NamedOnce

theorem namedOnce_after (changes : List Change) : (after changes).NamedOnce := by
  induction changes using List.reverseRecOn with
  | nil => exact namedOnce_empty
  | append_singleton changes x ih =>
    rw [after_concat]
    exact ih.change x

/-! ## Names that a class has lost -/

/-- The class held under a number bears the name. -/
def Bears (d : Directory) (id : ClassId) (name : String) : Prop :=
  ∃ c, d.get? id = some c ∧ c.name = name

/-- A class of this number is inserted under the name. -/
def Change.Grants (id : ClassId) (name : String) : Change → Prop
  | .insert c => c.id = id ∧ c.name = name
  | .remove _ => False

section

variable {id : ClassId} {name : String}

theorem not_bears_remove (d : Directory) : ¬ (d.remove id).Bears id name := by
  rintro ⟨c, held, -⟩
  rw [get?_remove, if_pos rfl] at held
  cases held

theorem not_bears_insert (d : Directory) {c : Class} (renamed : c.name ≠ name) :
    ¬ (d.insert c).Bears c.id name := by
  rintro ⟨c', held, bears⟩
  rw [get?_insert, if_pos rfl] at held
  cases held
  exact renamed bears

/-- A class bears a name after a change only if it did before, or has just been
inserted under it. -/
theorem Bears.of_change {d : Directory} {x : Change} (h : (d.change x).Bears id name) :
    d.Bears id name ∨ x.Grants id name := by
  obtain ⟨c, held, bears⟩ := h
  cases x with
  | insert c' =>
    rw [change, get?_insert] at held
    split at held
    · cases held
      exact .inr ⟨‹_›, bears⟩
    · exact .inl ⟨c, held, bears⟩
  | remove id' =>
    rw [change, get?_remove] at held
    split at held
    · cases held
    · exact .inl ⟨c, held, bears⟩

/-- **A name that a class has lost does not come back by itself.** -/
theorem Bears.of_append {before later : List Change}
    (ungranted : ∀ x ∈ later, ¬ x.Grants id name) (h : (after (before ++ later)).Bears id name) :
    (after before).Bears id name := by
  induction later using List.reverseRecOn with
  | nil => rwa [List.append_nil] at h
  | append_singleton later x ih =>
    obtain ⟨earlier, last⟩ := List.forall_mem_append.mp ungranted
    rw [← List.append_assoc, after_concat] at h
    exact ih earlier (h.of_change.resolve_right (last x List.mem_cons_self))

/-- A class that does not bear a name at some time is not found under it later, unless it is
inserted under it. -/
theorem ne_of_byName?_append {before later : List Change} (lost : ¬ (after before).Bears id name)
    (ungranted : ∀ x ∈ later, ¬ x.Grants id name) {c : Class}
    (found : (after (before ++ later)).byName? name = some c) : c.id ≠ id := by
  rintro rfl
  obtain ⟨bears, held⟩ := (faithful_after _).of_byName? found
  exact lost (Bears.of_append ungranted ⟨c, held, bears⟩)

end

/-- **The index of names never dangles**, after any changes to the classes.

What a name leads to bears the name, and is the very record that is held under its number.  A class
that is inserted next will be found under its name, as the edition that it is.  Each name has one
entry at most, and each entry points at a record that is held and bears the name.

So a class that is removed is not found under any name, and one that is inserted anew is not found
under any name but its own, until it is inserted under that name. -/
theorem index_never_dangles (changes : List Change) :
    let d := after changes
    (∀ name c, d.byName? name = some c → c.name = name ∧
      ∃ r, r.cls = c ∧ d.recordByName? name = some r ∧ d.record? c.id = some r) ∧
    (∀ c, (d.insert c).byName? c.name = some c ∧
      (d.insert c).recordByName? c.name = some (d.nextRecord c)) ∧
    (d.names.map Prod.fst).Nodup ∧
    (∀ entry ∈ d.names, ∃ r, d.record? entry.2 = some r ∧ r.cls.name = entry.1) ∧
    (∀ id name later, (∀ x ∈ later, ¬ x.Grants id name) →
      ∀ c, (after (changes ++ .remove id :: later)).byName? name = some c → c.id ≠ id) ∧
    ∀ c name later, c.name ≠ name → (∀ x ∈ later, ¬ x.Grants c.id name) →
      ∀ c', (after (changes ++ .insert c :: later)).byName? name = some c' → c'.id ≠ c.id := by
  intro d
  have faithful : d.Faithful := faithful_after changes
  have once : d.NamedOnce := namedOnce_after changes
  refine ⟨fun name c found => ?_, fun c => ⟨?_, d.recordByName?_insert c⟩, once,
    fun entry mem => ?_, fun id name later ungranted c found => ?_,
    fun c name later renamed ungranted c' found => ?_⟩
  · refine ⟨(faithful.of_byName? found).1, ?_⟩
    rw [byName?_eq_map] at found
    obtain ⟨r, leads, rfl⟩ := Option.map_eq_some_iff.mp found
    obtain ⟨id, -, held⟩ := Option.bind_eq_some_iff.mp leads
    refine ⟨r, rfl, leads, ?_⟩
    rw [id_of_record? held]
    exact held
  · rw [byName?_eq_map, recordByName?_insert]
    rfl
  · obtain ⟨c, held, bears⟩ := faithful entry.1 entry.2 (once.listed?_of_mem mem)
    obtain ⟨r, record, rfl⟩ := Option.map_eq_some_iff.mp held
    exact ⟨r, record, bears⟩
  · rw [List.append_cons] at found
    refine ne_of_byName?_append ?_ ungranted found
    rw [after_concat]
    exact not_bears_remove _
  · rw [List.append_cons] at found
    refine ne_of_byName?_append ?_ ungranted found
    rw [after_concat]
    exact not_bears_insert _ renamed

end Directory

end MessageMachine
