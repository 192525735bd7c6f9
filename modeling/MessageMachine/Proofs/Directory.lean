import Mathlib.Data.List.Nodup
import MessageMachine.Class

/-!
# The records of the directory

A class is found under its number, whatever the index of names says.  Insertion and removal change
what is found under one number only (`Directory.get?_insert`, `Directory.get?_remove`), and they
keep the records in order: there is never more than one for a number (`Directory.Distinct`).

As long as nobody else holds on to records, all that are alive are in the directory
(`Directory.Sole`).
-/

namespace MessageMachine

namespace Directory

/-! ## What is found under a number -/

theorem id_of_record? {d : Directory} {id : ClassId} {r : Record} (found : d.record? id = some r) :
    r.cls.id = id := by
  have held := List.find?_some found
  exact of_decide_eq_true held

theorem id_of_get? {d : Directory} {id : ClassId} {c : Class} (found : d.get? id = some c) :
    c.id = id := by
  obtain ⟨r, held, rfl⟩ := Option.map_eq_some_iff.mp found
  exact id_of_record? held

theorem find?_recordsWithout (d : Directory) (id id' : ClassId) :
    (d.recordsWithout id).find? (fun r => r.cls.id = id') =
      if id = id' then none else d.record? id' := by
  rw [recordsWithout, List.find?_filter]
  split
  · subst id'
    rw [List.find?_eq_none]
    simp
  · rename_i other
    refine congrArg (List.find? · d.records) (funext fun r => ?_)
    rw [Bool.eq_iff_iff]
    simp only [decide_eq_true_eq]
    exact ⟨And.right, fun same => ⟨fun h => other (h.symm.trans same), same⟩⟩

theorem get?_remove (d : Directory) (id id' : ClassId) :
    (d.remove id).get? id' = if id = id' then none else d.get? id' := by
  unfold remove
  split
  · show ((d.recordsWithout id).find? _).map _ = _
    rw [find?_recordsWithout, apply_ite (Option.map Record.cls)]
    rfl
  · rename_i missing
    split
    · subst id'
      exact missing
    · rfl

/-- An insertion does the same to the records whatever it does to the index of names. -/
theorem records_insert (d : Directory) (c : Class) :
    (d.insert c).records = d.recordsWithout c.id ++ [d.nextRecord c] := by
  unfold insert
  cases d.get? c.id with
  | none => rfl
  | some old =>
    dsimp only
    split <;> rfl

theorem outdated_insert (d : Directory) (c : Class) :
    (d.insert c).holds = d.holds ∧ (d.insert c).outdated = d.outdatedWith c.id := by
  unfold insert
  cases d.get? c.id with
  | none => exact ⟨rfl, rfl⟩
  | some old =>
    dsimp only
    split <;> exact ⟨rfl, rfl⟩

theorem get?_insert (d : Directory) (c : Class) (id : ClassId) :
    (d.insert c).get? id = if c.id = id then some c else d.get? id := by
  rw [get?, record?, records_insert, List.find?_append, find?_recordsWithout]
  split
  · simp [nextRecord, *]
  · simp [nextRecord, get?, *]

end Directory

/-! ## Writing a class variable -/

/-- Writing a variable leaves the number of the class alone. -/
theorem Class.id_of_setVar {c c' : Class} {index : UInt32} {value : Value}
    (set : c.setVar index value = .ok c') : c'.id = c.id := by
  unfold setVar at set
  split at set
  · cases set
    rfl
  · cases set

namespace Record

variable {r : Record} {cls : Class}

theorem key_overwrite (number : cls.id = r.cls.id) (other : Record) :
    (r.overwrite cls other).key = other.key := by
  unfold overwrite
  split
  · rename_i same
    exact congrArg (other.edition, ·) (number.trans (congrArg Prod.snd same).symm)
  · rfl

theorem overwrite_of_key {other : Record} (same : other.key = r.key) :
    (r.overwrite cls other).cls = cls := by
  unfold overwrite
  rw [if_pos same]

theorem overwrite_of_ne {other : Record} (number : other.cls.id ≠ r.cls.id) :
    r.overwrite cls other = other :=
  if_neg fun same => number (congrArg Prod.snd same)

end Record

namespace Directory

/-- Writing a variable of a record writes the record, with its number. -/
theorem exists_of_writeVar {d d' : Directory} {r : Record} {index : UInt32} {value : Value}
    (written : d.writeVar r index value = .ok d') :
    ∃ cls, r.cls.setVar index value = .ok cls ∧ cls.id = r.cls.id ∧ d' = d.overwrite r cls := by
  unfold writeVar at written
  cases set : r.cls.setVar index value with
  | error f =>
    rw [set] at written
    cases written
  | ok cls =>
    rw [set] at written
    cases written
    exact ⟨cls, rfl, Class.id_of_setVar set, rfl⟩

section

variable (d : Directory) {r : Record} {cls : Class} (number : cls.id = r.cls.id)

include number

/-- A record is found under its number before it is written just if it is found afterwards. -/
theorem record?_overwrite (id : ClassId) :
    (d.overwrite r cls).record? id = (d.record? id).map (r.overwrite cls) := by
  have same : (fun other : Record => decide (other.cls.id = id)) ∘ r.overwrite cls =
      fun other => decide (other.cls.id = id) :=
    funext fun other => by
      rw [Function.comp, show (r.overwrite cls other).cls.id = other.cls.id from
        congrArg Prod.snd (Record.key_overwrite number other)]
  rw [record?, overwrite, List.find?_map, same]
  rfl

/-- A record is alive under its edition before it is written just if it is alive afterwards. -/
theorem ofEdition?_overwrite (edition : Nat) :
    (d.overwrite r cls).ofEdition? edition = (d.ofEdition? edition).map (r.overwrite cls) := by
  have same : (fun other : Record => decide (other.edition = edition)) ∘ r.overwrite cls =
      fun other => decide (other.edition = edition) :=
    funext fun other => by
      rw [Function.comp, show (r.overwrite cls other).edition = other.edition from
        congrArg Prod.fst (Record.key_overwrite number other)]
  rw [ofEdition?, living, overwrite, ← List.map_append, List.find?_map, same]
  rfl

end

/-! ## One record for each number -/

/-- No two records are held under one number. -/
def Distinct (d : Directory) : Prop := (d.records.map fun r => r.cls.id).Nodup

theorem distinct_empty : Distinct {} := List.nodup_nil

namespace Distinct

variable {d : Directory}

/-- A record that is held is found under its number. -/
theorem record?_of_mem (h : d.Distinct) {r : Record} (mem : r ∈ d.records) :
    d.record? r.cls.id = some r := by
  unfold Distinct at h
  unfold record?
  generalize d.records = records at h mem
  induction records with
  | nil => cases mem
  | cons first others ih =>
    rw [List.map_cons, List.nodup_cons] at h
    rcases List.mem_cons.mp mem with rfl | mem
    · exact List.find?_cons_of_pos (decide_eq_true rfl)
    · have other : first.cls.id ≠ r.cls.id := fun same =>
        h.1 (List.mem_map.mpr ⟨r, mem, same.symm⟩)
      rw [List.find?_cons_of_neg (by simpa using other)]
      exact ih h.2 mem

theorem recordsWithout (h : d.Distinct) (id : ClassId) :
    ((d.recordsWithout id).map fun r => r.cls.id).Nodup :=
  h.sublist (List.filter_sublist.map _)

theorem insert (h : d.Distinct) (c : Class) : (d.insert c).Distinct := by
  rw [Distinct, records_insert, List.map_append, List.nodup_append]
  refine ⟨h.recordsWithout c.id, List.nodup_singleton _, ?_⟩
  intro id mem id' mem' same
  obtain ⟨r, kept, rfl⟩ := List.mem_map.mp mem
  rw [List.map_singleton, List.mem_singleton] at mem'
  exact of_decide_eq_true (List.mem_filter.mp kept).2 (same.trans mem')

theorem remove (h : d.Distinct) (id : ClassId) : (d.remove id).Distinct := by
  unfold Directory.remove
  cases d.get? id with
  | none => exact h
  | some c => exact h.recordsWithout id

/-- Writing a record leaves the numbers alone. -/
theorem overwrite (h : d.Distinct) {r : Record} {cls : Class} (number : cls.id = r.cls.id) :
    (d.overwrite r cls).Distinct := by
  unfold Distinct
  rw [show (d.overwrite r cls).records = d.records.map (r.overwrite cls) from rfl, List.map_map]
  refine (List.map_congr_left fun other _ => ?_) ▸ h
  exact congrArg Prod.snd (Record.key_overwrite number other).symm

end Distinct

/-! ## Nobody else holds on to records -/

/-- There is one record for each number, and nobody but the directory holds on to any. -/
structure Sole (d : Directory) : Prop where
  distinct : d.Distinct
  holds : d.holds = []
  outdated : d.outdated = []

theorem sole_empty : Sole {} := ⟨distinct_empty, rfl, rfl⟩

namespace Sole

variable {d : Directory}

/-- What loses its place is gone. -/
theorem outdatedWith (h : d.Sole) (id : ClassId) : d.outdatedWith id = [] := by
  simp [Directory.outdatedWith, h.holds, h.outdated]

theorem insert (h : d.Sole) (c : Class) : (d.insert c).Sole :=
  have ⟨holds, outdated⟩ := d.outdated_insert c
  ⟨h.distinct.insert c, holds.trans h.holds, outdated.trans (h.outdatedWith c.id)⟩

theorem remove (h : d.Sole) (id : ClassId) : (d.remove id).Sole := by
  refine ⟨h.distinct.remove id, ?_, ?_⟩
  all_goals
    unfold Directory.remove
    cases d.get? id with
    | none => first | exact h.holds | exact h.outdated
    | some c => first | exact h.holds | exact h.outdatedWith id

theorem overwrite (h : d.Sole) {r : Record} {cls : Class} (number : cls.id = r.cls.id) :
    (d.overwrite r cls).Sole :=
  ⟨h.distinct.overwrite number, h.holds, congrArg (List.map _) h.outdated⟩

end Sole

end Directory

end MessageMachine
