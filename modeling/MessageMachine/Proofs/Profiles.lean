import Mathlib.Algebra.Order.Ring.Nat
import Mathlib.Data.List.Basic
import Mathlib.Data.List.Nodup
import MessageMachine.Statistics

/-!
# Profiles

There is at most one profile for each handler, and its key is the handler: the class that defines
it, and the message.  When the time of a handler is kept, its profile records it, and no other
profile changes (`Statistics.profile?_countTime`).
-/

namespace MessageMachine

namespace Profile

/-- What a profile is of. -/
def key (p : Profile) : ClassId × MessageId := (p.cls, p.message)

/-- The profile when the time of a handler is kept, which may be its own. -/
def keep (cls : ClassId) (message : MessageId) (millis : UInt64) (p : Profile) : Profile :=
  if p.cls = cls ∧ p.message = message then p.record millis else p

variable (cls : ClassId) (message : MessageId) (millis : UInt64) (p : Profile)

theorem keep_of_key {p : Profile} (h : p.key = (cls, message)) :
    p.keep cls message millis = p.record millis :=
  if_pos ⟨congrArg Prod.fst h, congrArg Prod.snd h⟩

theorem keep_of_key_ne {p : Profile} (h : p.key ≠ (cls, message)) :
    p.keep cls message millis = p :=
  if_neg fun same => h (Prod.ext same.1 same.2)

@[simp] theorem key_keep : (p.keep cls message millis).key = p.key := by
  unfold keep
  split <;> rfl

theorem highest_record :
    (p.record millis).highest = if p.highest ≤ millis then millis else p.highest :=
  rfl

/-- A key is counted once for each profile that has it. -/
theorem sum_own_key (profiles : List Profile) (key : ClassId × MessageId) :
    (profiles.map fun p => if key = (p.cls, p.message) then 1 else 0).sum =
      (profiles.map Profile.key).count key := by
  induction profiles with
  | nil => rfl
  | cons p profiles ih =>
    rw [List.map_cons, List.sum_cons, ih, List.map_cons, List.count_cons, Nat.add_comm,
      show p.key = (p.cls, p.message) from rfl]
    by_cases own : key = (p.cls, p.message)
    · rw [if_pos own, if_pos (beq_iff_eq.mpr own.symm)]
    · rw [if_neg own, if_neg fun h => own (beq_iff_eq.mp h).symm]

end Profile

namespace Statistics

/-! ## Finding profiles -/

theorem profile?_eq (s : Statistics) (cls : ClassId) (message : MessageId) :
    s.profile? cls message = s.profiles.find? fun p => decide (p.key = (cls, message)) := by
  unfold profile?
  simp only [Profile.key, Prod.mk.injEq]

theorem key_of_profile? {s : Statistics} {cls : ClassId} {message : MessageId} {p : Profile}
    (h : s.profile? cls message = some p) : p.key = (cls, message) ∧ p ∈ s.profiles := by
  rw [profile?_eq] at h
  have key := List.find?_some h
  exact ⟨of_decide_eq_true key, List.mem_of_find?_eq_some h⟩

theorem profile?_eq_none_iff (s : Statistics) (cls : ClassId) (message : MessageId) :
    s.profile? cls message = none ↔ (cls, message) ∉ s.profiles.map Profile.key := by
  rw [profile?_eq, List.find?_eq_none, List.mem_map]
  constructor
  · rintro none ⟨p, hp, key⟩
    exact none p hp (decide_eq_true key)
  · exact fun missing p hp key => missing ⟨p, hp, of_decide_eq_true key⟩

/-- The profile of a handler is found under its key. -/
theorem profile?_of_mem {s : Statistics} (distinct : (s.profiles.map Profile.key).Nodup)
    {p : Profile} (hp : p ∈ s.profiles) : s.profile? p.cls p.message = some p := by
  rw [profile?_eq]
  obtain ⟨before, after, split⟩ := List.append_of_mem hp
  rw [split, List.map_append, List.map_cons, List.nodup_append] at distinct
  refine List.find?_eq_some_iff_append.mpr
    ⟨decide_eq_true rfl, before, after, split, fun q hq => ?_⟩
  have other := distinct.2.2 q.key (List.mem_map_of_mem hq) p.key List.mem_cons_self
  rw [decide_eq_false (show ¬ q.key = (p.cls, p.message) from other)]
  rfl

/-! ## Keeping times -/

variable (s : Statistics)

/-- Keeping a time changes the profile of its handler, or makes a new one. -/
theorem countTime_cases (cls : ClassId) (message : MessageId) (millis : UInt64) :
    ((cls, message) ∈ s.profiles.map Profile.key ∧ s.countTime cls message millis =
        { s with profiles := s.profiles.map (Profile.keep cls message millis) }) ∨
      ((cls, message) ∉ s.profiles.map Profile.key ∧ s.countTime cls message millis =
        { s with profiles := s.profiles ++ [(Profile.mk cls message 0 0 0).record millis] }) := by
  unfold countTime
  cases found : s.profile? cls message with
  | some p =>
    obtain ⟨key, mem⟩ := key_of_profile? found
    exact .inl ⟨List.mem_map.mpr ⟨p, mem, key⟩, rfl⟩
  | none => exact .inr ⟨(s.profile?_eq_none_iff cls message).mp found, rfl⟩

/-- **The profile of a handler when a time has been kept.** -/
theorem profile?_countTime (cls c : ClassId) (message m : MessageId) (millis : UInt64) :
    (s.countTime c m millis).profile? cls message =
      if (c, m) = (cls, message) then
        some (((s.profile? cls message).getD (Profile.mk cls message 0 0 0)).record millis)
      else s.profile? cls message := by
  rcases s.countTime_cases c m millis with ⟨found, e⟩ | ⟨missing, e⟩
  · rw [e]
    have kept : Statistics.profile? { s with profiles := s.profiles.map (Profile.keep c m millis) }
        cls message = (s.profile? cls message).map (Profile.keep c m millis) := by
      rw [profile?_eq, profile?_eq, List.find?_map]
      simp only [Function.comp_def, Profile.key_keep]
    rw [kept]
    cases other : s.profile? cls message with
    | none =>
      -- then the time is another handler's
      have missing := (s.profile?_eq_none_iff cls message).mp other
      have different : (c, m) ≠ (cls, message) := by
        intro same
        rw [same] at found
        exact missing found
      rw [if_neg different]
      rfl
    | some p =>
      obtain ⟨key, -⟩ := key_of_profile? other
      by_cases same : (c, m) = (cls, message)
      · rw [if_pos same, Option.map_some, p.keep_of_key c m millis (key.trans same.symm)]
        rfl
      · rw [if_neg same, Option.map_some, Profile.keep_of_key_ne]
        exact fun h => same (h.symm.trans key)
  · have key : ((Profile.mk c m 0 0 0).record millis).key = (c, m) := rfl
    rw [e, profile?_eq, List.find?_append, ← profile?_eq, List.find?_singleton, key]
    by_cases same : (c, m) = (cls, message)
    · rw [same] at missing
      rw [(s.profile?_eq_none_iff cls message).mpr missing, if_pos same,
        if_pos (decide_eq_true same)]
      cases same
      rfl
    · rw [if_neg same, if_neg (fun h => same (of_decide_eq_true h)), Option.or_none]

/-- What a counter of a profile shows when a time has been kept. -/
theorem map_profile?_countTime {f : Profile → UInt64} {g : UInt64 → UInt64}
    (blank : ∀ cls message, f (Profile.mk cls message 0 0 0) = 0) (millis : UInt64)
    (record : ∀ p, f (p.record millis) = g (f p)) (cls c : ClassId) (message m : MessageId) :
    (((s.countTime c m millis).profile? cls message).map f).getD 0 =
      if (c, m) = (cls, message) then g (((s.profile? cls message).map f).getD 0)
      else ((s.profile? cls message).map f).getD 0 := by
  rw [profile?_countTime]
  by_cases same : (c, m) = (cls, message)
  · rw [if_pos same, if_pos same, Option.map_some, Option.getD_some, record]
    cases s.profile? cls message with
    | none => exact congrArg g (blank cls message)
    | some p => rfl
  · rw [if_neg same, if_neg same]

end Statistics

end MessageMachine
