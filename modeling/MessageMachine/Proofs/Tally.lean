import Mathlib.Algebra.BigOperators.Group.Finset.Piecewise
import Mathlib.Algebra.BigOperators.Ring.List
import Mathlib.Algebra.Order.BigOperators.Group.List
import Mathlib.Algebra.Order.Ring.Nat
import Mathlib.Data.FinEnum
import MessageMachine.Proofs.Profiles

/-!
# Tallies

A tally lists what was counted, in order: the sends from the top that began and ended, the handlers
that ran, the native functions that were called, and the times that handlers took.
`Statistics.countAll` is what becomes of the statistics when all of it is counted.

`Tally.total` adds up, without bound, what a tally tells a counter.  As long as it fits the word, it
is what the counter shows (`Statistics.get_countAll`).  So what the counters have to do with one
another is a question about tallies, and their totals are sums that can be exchanged: the calls of
all native slots make up the native calls (`Tally.sum_callsOf`), and the calls of all profiles the
times that were kept (`Tally.sum_calls`).

The slowest send and the highest time of a handler are no totals.  They are the greatest of what the
tally tells, the first one in the case of the send (`Statistics.slowest_countAll`,
`Tally.IsProfiled.highest_le_total`).
-/

namespace MessageMachine

/-! ## Counting -/

/-- Something that is counted. -/
inductive Count where
  /-- A send from the top begins. -/
  | began (settings : Settings)
  /-- A handler runs as the `depth`-th one. -/
  | handler (depth : Nat)
  /-- The function in a native slot is called. -/
  | native (slot : UInt8)
  /-- A handler has ended, and its time is kept. -/
  | time (cls : ClassId) (message : MessageId) (millis : UInt64)
  /-- A send from the top has ended. -/
  | ended (receiver : ObjectId) (message : MessageId) (counts : SendCounts)

/-- Is it the beginning or the end of a send from the top? -/
def Count.isOuter : Count → Bool
  | began _ | ended .. => true
  | _ => false

/-- What was counted, in order. -/
abbrev Tally := List Count

namespace Statistics

def count (s : Statistics) : Count → Statistics
  | .began settings => s.beginSend settings
  | .handler depth => s.countMessage depth
  | .native slot => s.countNative slot
  | .time cls message millis => s.countTime cls message millis
  | .ended receiver message counts => s.endSend receiver message counts

def countAll (s : Statistics) (t : Tally) : Statistics := t.foldl count s

@[simp] theorem countAll_nil (s : Statistics) : s.countAll [] = s := rfl

theorem countAll_append (s : Statistics) (t t' : Tally) :
    s.countAll (t ++ t') = (s.countAll t).countAll t' :=
  List.foldl_append

end Statistics

/-! ## Counters -/

/-- A counter of the statistics that is a word, those of the profiles included. -/
inductive Counter where
  | topLevel
  | messages
  | statements
  | nativeCalls
  | millis
  /-- The calls of a native slot. -/
  | callsOf (slot : UInt8)
  /-- The calls that the profile of a handler has. -/
  | calls (cls : ClassId) (message : MessageId)
  /-- The total time that the profile of a handler has. -/
  | total (cls : ClassId) (message : MessageId)

/-- What a counter shows. -/
def Statistics.get (s : Statistics) : Counter → UInt64
  | .topLevel => s.topLevel
  | .messages => s.messages
  | .statements => s.statements
  | .nativeCalls => s.nativeCalls
  | .millis => s.millis
  | .callsOf slot => s.callsOf slot
  | .calls cls message => ((s.profile? cls message).map Profile.calls).getD 0
  | .total cls message => ((s.profile? cls message).map Profile.total).getD 0

/-- How much is added to a counter. -/
def Count.added : Counter → Count → Nat
  | .topLevel, .began _ => 1
  | .messages, .handler _ => 1
  | .statements, .ended _ _ counts => counts.statements.toNat
  | .nativeCalls, .native _ => 1
  | .millis, .ended _ _ counts => counts.millis.toNat
  | .callsOf slot, .native i => if i = slot then 1 else 0
  | .calls cls message, .time c m _ => if (c, m) = (cls, message) then 1 else 0
  | .total cls message, .time c m millis => if (c, m) = (cls, message) then millis.toNat else 0
  | _, _ => 0

/-- The most that is added to any counter. -/
def Count.most : Count → Nat
  | .began _ | .handler _ | .native _ => 1
  | .time _ _ millis => max 1 millis.toNat
  | .ended _ _ counts => max counts.statements.toNat counts.millis.toNat

theorem Count.added_le_most (k : Counter) (c : Count) : c.added k ≤ c.most := by
  have both (p : Prop) [Decidable p] (n : Nat) : (if p then n else 0) ≤ n := by
    split
    · exact Nat.le_refl n
    · exact Nat.zero_le n
  cases c with
  | began | handler => cases k <;> first | exact Nat.le_refl 1 | exact Nat.zero_le 1
  | native i =>
    cases k with
    | callsOf slot => exact both (i = slot) 1
    | nativeCalls => exact Nat.le_refl 1
    | _ => exact Nat.zero_le 1
  | time c m millis =>
    cases k with
    | calls cls message => exact (both ((c, m) = (cls, message)) 1).trans (Nat.le_max_left _ _)
    | total cls message => exact (both ((c, m) = (cls, message)) _).trans (Nat.le_max_right _ _)
    | _ => exact Nat.zero_le _
  | ended receiver message counts =>
    cases k with
    | statements => exact Nat.le_max_left _ _
    | millis => exact Nat.le_max_right _ _
    | _ => exact Nat.zero_le _

/-- How much is added to a counter in all. -/
def Tally.total (t : Tally) (k : Counter) : Nat := (t.map (Count.added k)).sum

namespace Statistics

variable (s : Statistics)

theorem callsOf_countNative (i slot : UInt8) :
    (s.countNative i).callsOf slot = s.callsOf slot + if i = slot then 1 else 0 := by
  have shown : (s.countNative i).callsOf slot =
      if i.toNat = slot.toNat then s.callsOf i + 1 else s.callsOf slot :=
    Vector.getElem_set i.toNat_lt slot.toNat_lt
  rw [shown]
  by_cases same : i = slot
  · subst same
    rw [if_pos rfl, if_pos rfl]
  · rw [if_neg (fun e => same (UInt8.toNat_inj.mp e)), if_neg same, UInt64.add_zero]

/-- **Each counter counts what it is told.** -/
theorem get_count (k : Counter) (c : Count) :
    (s.count c).get k = s.get k + .ofNat (c.added k) := by
  have idle (x : UInt64) : x = x + .ofNat 0 := (UInt64.add_zero x).symm
  cases c with
  | began settings =>
    cases k with
    | topLevel => rfl
    | _ => exact idle _
  | handler depth =>
    cases k with
    | messages => rfl
    | _ => exact idle _
  | native i =>
    cases k with
    | nativeCalls => rfl
    | callsOf slot =>
      have counts := s.callsOf_countNative i slot
      show (s.countNative i).callsOf slot = s.callsOf slot + .ofNat (if i = slot then 1 else 0)
      rw [counts]
      split <;> rfl
    | _ => exact idle _
  | time c m millis =>
    cases k with
    | calls cls message =>
      have kept := s.map_profile?_countTime (f := Profile.calls) (g := (· + 1))
        (fun _ _ => rfl) millis (fun _ => rfl) cls c message m
      show _ = _ + UInt64.ofNat (if (c, m) = (cls, message) then 1 else 0)
      refine kept.trans ?_
      split
      · rfl
      · exact idle _
    | total cls message =>
      have kept := s.map_profile?_countTime (f := Profile.total) (g := (· + millis))
        (fun _ _ => rfl) millis (fun _ => rfl) cls c message m
      show _ = _ + UInt64.ofNat (if (c, m) = (cls, message) then millis.toNat else 0)
      refine kept.trans ?_
      split
      · rw [UInt64.ofNat_toNat]
        rfl
      · exact idle _
    | _ =>
      show (s.countTime c m millis).get _ = _
      rcases s.countTime_cases c m millis with ⟨-, e⟩ | ⟨-, e⟩
      · rw [e]
        exact idle _
      · rw [e]
        exact idle _
  | ended receiver message counts =>
    cases k with
    | statements =>
      show s.statements + counts.statements = s.statements + .ofNat counts.statements.toNat
      rw [UInt64.ofNat_toNat]
    | millis =>
      show s.millis + counts.millis = s.millis + .ofNat counts.millis.toNat
      rw [UInt64.ofNat_toNat]
    | _ => exact idle _

/-- **Each counter shows the total**, as far as that fits the word. -/
theorem get_countAll (k : Counter) (t : Tally) :
    (s.countAll t).get k = s.get k + .ofNat (t.total k) := by
  induction t generalizing s with
  | nil => exact (UInt64.add_zero _).symm
  | cons c t ih =>
    have later := ih (s.count c)
    rw [get_count, UInt64.add_assoc, ← UInt64.ofNat_add] at later
    exact later

theorem get_empty (k : Counter) : ({} : Statistics).get k = 0 := by
  cases k with
  | callsOf slot => exact Vector.getElem_replicate slot.toNat_lt
  | _ => rfl

end Statistics

/-! ## Totals -/

namespace Tally

variable (t t' : Tally) (k : Counter)

theorem total_append : (t ++ t').total k = t.total k + t'.total k := by
  rw [total, List.map_append, List.sum_append]
  rfl

theorem total_flatMap {α : Type} (xs : List α) (f : α → Tally) :
    total (xs.flatMap f) k = (xs.map fun x => (f x).total k).sum := by
  induction xs with
  | nil => rfl
  | cons x xs ih => rw [List.flatMap_cons, total_append, ih, List.map_cons, List.sum_cons]

/-- Nothing but the beginning and the end of a send from the top tells these counters anything. -/
theorem total_of_inner {t : Tally} (inner : ∀ c ∈ t, c.isOuter = false) :
    t.total .topLevel = 0 ∧ t.total .statements = 0 ∧ t.total .millis = 0 := by
  have none (k : Counter) (quiet : ∀ c : Count, c.isOuter = false → c.added k = 0) :
    t.total k = 0 := by
    refine List.sum_eq_zero fun n hn => ?_
    obtain ⟨c, hc, rfl⟩ := List.mem_map.mp hn
    exact quiet c (inner c hc)
  refine ⟨none _ fun c hc => ?_, none _ fun c hc => ?_, none _ fun c hc => ?_⟩
  all_goals
    cases c with
    | began | ended => cases hc
    | handler | native | time => rfl

theorem total_native (slots : List UInt8) :
    total (slots.map .native) .nativeCalls = slots.length := by
  induction slots with
  | nil => rfl
  | cons slot slots ih =>
    show 1 + total (slots.map .native) .nativeCalls = slots.length + 1
    rw [ih, Nat.add_comm]

/-- No counter is told more than fits its word. -/
def Fits : Prop := ∀ k, t.total k < UInt64.size

/-- It is enough that all that is told fits one word. -/
theorem fits_of_sum_most {t : Tally} (h : (t.map Count.most).sum < UInt64.size) : t.Fits :=
  fun k => Nat.lt_of_le_of_lt (List.sum_le_sum fun c _ => c.added_le_most k) h

/-- **A counter that starts at zero shows its total**, if that fits the word. -/
theorem toNat_get {t : Tally} (fits : t.Fits) (k : Counter) :
    ((({} : Statistics).countAll t).get k).toNat = t.total k := by
  rw [Statistics.get_countAll, Statistics.get_empty, UInt64.zero_add]
  exact UInt64.toNat_ofNat_of_lt' (fits k)

/-- **The calls of all slots are the native calls.** -/
theorem sum_callsOf : ∑ slot : UInt8, t.total (.callsOf slot) = t.total .nativeCalls := by
  have single (c : Count) : ∑ slot : UInt8, c.added (.callsOf slot) = c.added .nativeCalls := by
    cases c with
    | native i =>
      show ∑ slot : UInt8, (if i = slot then 1 else 0) = 1
      rw [Finset.sum_ite_eq, if_pos (Finset.mem_univ i)]
    | _ => exact Finset.sum_const_zero
  induction t with
  | nil => exact Finset.sum_const_zero
  | cons c t ih =>
    show ∑ slot : UInt8, (c.added (.callsOf slot) + total t (.callsOf slot)) =
      c.added .nativeCalls + total t .nativeCalls
    rw [Finset.sum_add_distrib, single, ih]

end Tally

/-! ## Profiles -/

/-- Is it the time of a handler? -/
def Count.isTime : Count → Bool
  | time .. => true
  | _ => false

/-- There is one profile for each handler whose time the tally keeps, with the greatest
of its times. -/
structure Tally.IsProfiled (t : Tally) (profiles : List Profile) : Prop where
  distinct : (profiles.map Profile.key).Nodup
  covers : ∀ cls message millis, .time cls message millis ∈ t →
    (cls, message) ∈ profiles.map Profile.key
  attained : ∀ p ∈ profiles, .time p.cls p.message p.highest ∈ t
  bounds : ∀ p ∈ profiles, ∀ millis, .time p.cls p.message millis ∈ t → millis ≤ p.highest

namespace Tally.IsProfiled

variable {t : Tally} {s : Statistics}

/-- No profile changes. -/
theorem idle (h : t.IsProfiled s.profiles) {c : Count} (idle : c.isTime = false) :
    Tally.IsProfiled (t ++ [c]) s.profiles := by
  have mem (cls : ClassId) (message : MessageId) (millis : UInt64) :
      .time cls message millis ∈ t ++ [c] ↔ .time cls message millis ∈ t := by
    rw [List.mem_append, List.mem_singleton]
    refine or_iff_left fun same => ?_
    rw [← same] at idle
    cases idle
  constructor
  · exact h.distinct
  · intro cls message millis kept
    exact h.covers cls message millis ((mem _ _ _).mp kept)
  · intro p hp
    exact (mem _ _ _).mpr (h.attained p hp)
  · intro p hp millis kept
    exact h.bounds p hp millis ((mem _ _ _).mp kept)

/-- The time of a handler that has a profile already. -/
theorem recorded (h : t.IsProfiled s.profiles) {c : ClassId} {m : MessageId} (millis : UInt64)
    (found : (c, m) ∈ s.profiles.map Profile.key) :
    Tally.IsProfiled (t ++ [.time c m millis]) (s.profiles.map (Profile.keep c m millis)) := by
  have keys : (s.profiles.map (Profile.keep c m millis)).map Profile.key =
      s.profiles.map Profile.key := by
    rw [List.map_map]
    exact List.map_congr_left fun p _ => Profile.key_keep c m millis p
  have new : Count.time c m millis ∈ t ++ [.time c m millis] :=
    List.mem_append_right _ (List.mem_singleton_self _)
  constructor
  · exact keys ▸ h.distinct
  · intro cls message kept mem
    rw [keys]
    rcases List.mem_append.mp mem with mem | mem
    · exact h.covers cls message kept mem
    · cases List.mem_singleton.mp mem
      exact found
  · intro q hq
    obtain ⟨p, hp, rfl⟩ := List.mem_map.mp hq
    have attained := List.mem_append_left [Count.time c m millis] (h.attained p hp)
    by_cases own : p.key = (c, m)
    · rw [Profile.keep_of_key c m millis own, Profile.highest_record]
      split
      · cases own
        exact new
      · exact attained
    · rw [Profile.keep_of_key_ne c m millis own]
      exact attained
  · intro q hq kept mem
    obtain ⟨p, hp, rfl⟩ := List.mem_map.mp hq
    by_cases own : p.key = (c, m)
    · rw [Profile.keep_of_key c m millis own] at mem ⊢
      have bound : kept ≤ p.highest ∨ kept = millis := by
        rcases List.mem_append.mp mem with mem | mem
        · exact .inl (h.bounds p hp kept mem)
        · cases List.mem_singleton.mp mem
          exact .inr rfl
      rw [Profile.highest_record]
      split
      · rcases bound with le | rfl
        · exact UInt64.le_trans le ‹_›
        · exact UInt64.le_refl _
      · rcases bound with le | rfl
        · exact le
        · exact (UInt64.le_total _ _).resolve_left ‹_›
    · rw [Profile.keep_of_key_ne c m millis own] at mem ⊢
      rcases List.mem_append.mp mem with mem | mem
      · exact h.bounds p hp kept mem
      · cases List.mem_singleton.mp mem
        exact absurd rfl own

/-- The first time of a handler. -/
theorem added (h : t.IsProfiled s.profiles) {c : ClassId} {m : MessageId} (millis : UInt64)
    (missing : (c, m) ∉ s.profiles.map Profile.key) :
    Tally.IsProfiled (t ++ [.time c m millis])
      (s.profiles ++ [(Profile.mk c m 0 0 0).record millis]) := by
  have key : ((Profile.mk c m 0 0 0).record millis).key = (c, m) := rfl
  have highest : ((Profile.mk c m 0 0 0).record millis).highest = millis := by
    rw [Profile.highest_record, if_pos (UInt64.le_iff_toNat_le.mpr (Nat.zero_le _))]
  constructor
  · rw [List.map_append, List.nodup_append]
    refine ⟨h.distinct, List.nodup_singleton _, fun old mem new mem' same => missing ?_⟩
    rw [List.mem_singleton.mp mem', key] at same
    exact same ▸ mem
  · intro cls message kept mem
    rw [List.map_append]
    rcases List.mem_append.mp mem with mem | mem
    · exact List.mem_append_left _ (h.covers cls message kept mem)
    · cases List.mem_singleton.mp mem
      exact List.mem_append_right _ (List.mem_singleton_self _)
  · intro q hq
    rcases List.mem_append.mp hq with hq | hq
    · exact List.mem_append_left _ (h.attained q hq)
    · rw [List.mem_singleton.mp hq, highest]
      exact List.mem_append_right _ (List.mem_singleton_self _)
  · intro q hq kept mem
    rcases List.mem_append.mp hq with old | new
    · rcases List.mem_append.mp mem with mem | mem
      · exact h.bounds q old kept mem
      · cases List.mem_singleton.mp mem
        exact absurd (List.mem_map.mpr ⟨q, old, rfl⟩) missing
    · rw [List.mem_singleton.mp new] at mem ⊢
      rw [highest]
      rcases List.mem_append.mp mem with mem | mem
      · exact absurd (h.covers _ _ _ mem) missing
      · cases List.mem_singleton.mp mem
        exact UInt64.le_refl _

/-- A time is kept. -/
theorem countTime (h : t.IsProfiled s.profiles) (c : ClassId) (m : MessageId) (millis : UInt64) :
    Tally.IsProfiled (t ++ [.time c m millis]) (s.countTime c m millis).profiles := by
  rcases s.countTime_cases c m millis with ⟨found, e⟩ | ⟨missing, e⟩
  · rw [e]
    exact h.recorded millis found
  · rw [e]
    exact h.added millis missing

theorem countAll (s : Statistics) (none : s.profiles = []) (t : Tally) :
    t.IsProfiled (s.countAll t).profiles := by
  induction t using List.reverseRecOn with
  | nil =>
    rw [Statistics.countAll_nil, none]
    exact ⟨List.nodup_nil, fun _ _ _ mem => (by cases mem), fun _ mem => (by cases mem),
      fun _ mem => (by cases mem)⟩
  | append_singleton t c ih =>
    rw [Statistics.countAll_append]
    show Tally.IsProfiled _ ((s.countAll t).count c).profiles
    cases c with
    | time cls message millis => exact ih.countTime cls message millis
    | _ => exact ih.idle rfl

/-- No time is higher than the total, and the total is no more than all calls could take. -/
theorem highest_le_total {profiles : List Profile} (h : t.IsProfiled profiles) {p : Profile}
    (hp : p ∈ profiles) :
    p.highest.toNat ≤ t.total (.total p.cls p.message) ∧
      t.total (.total p.cls p.message) ≤ t.total (.calls p.cls p.message) * p.highest.toNat := by
  constructor
  · have own : Count.added (.total p.cls p.message) (.time p.cls p.message p.highest) =
        p.highest.toNat := if_pos rfl
    rw [← own]
    exact List.single_le_sum (fun _ _ => Nat.zero_le _) _ (List.mem_map_of_mem (h.attained p hp))
  · have each : ∀ c ∈ t, c.added (.total p.cls p.message) ≤
        c.added (.calls p.cls p.message) * p.highest.toNat := by
      intro c hc
      cases c with
      | time cls message millis =>
        show (if (cls, message) = (p.cls, p.message) then millis.toNat else 0) ≤
          (if (cls, message) = (p.cls, p.message) then 1 else 0) * p.highest.toNat
        by_cases own : (cls, message) = (p.cls, p.message)
        · cases own
          rw [if_pos rfl, if_pos rfl, Nat.one_mul]
          exact UInt64.le_iff_toNat_le.mp (h.bounds p hp millis hc)
        · rw [if_neg own]
          exact Nat.zero_le _
      | _ => exact Nat.zero_le _
    calc t.total (.total p.cls p.message)
        ≤ (t.map fun c => c.added (.calls p.cls p.message) * p.highest.toNat).sum :=
          List.sum_le_sum each
      _ = t.total (.calls p.cls p.message) * p.highest.toNat := List.sum_map_mul_right _ _ _

end Tally.IsProfiled

namespace Tally

/-- The number of times that were kept. -/
def times (t : Tally) : Nat := t.countP Count.isTime

theorem times_append (t t' : Tally) : times (t ++ t') = t.times + t'.times :=
  List.countP_append

/-- **The calls of all profiles are the times that were kept.** -/
theorem sum_calls {profiles : List Profile} (distinct : (profiles.map Profile.key).Nodup)
    (t : Tally) (covers : ∀ cls message millis, .time cls message millis ∈ t →
      (cls, message) ∈ profiles.map Profile.key) :
    (profiles.map fun p => t.total (.calls p.cls p.message)).sum = t.times := by
  have single (c : Count) (known : ∀ cls message millis, c = .time cls message millis →
      (cls, message) ∈ profiles.map Profile.key) :
      (profiles.map fun p => c.added (.calls p.cls p.message)).sum = if c.isTime then 1 else 0 := by
    cases c with
    | time cls message millis =>
      have once := List.count_eq_one_of_mem distinct (known cls message millis rfl)
      exact (Profile.sum_own_key profiles (cls, message)).trans once
    | _ =>
      refine List.sum_eq_zero fun n hn => ?_
      obtain ⟨p, -, rfl⟩ := List.mem_map.mp hn
      rfl
  induction t with
  | nil =>
    refine List.sum_eq_zero fun n hn => ?_
    obtain ⟨p, -, rfl⟩ := List.mem_map.mp hn
    rfl
  | cons c t ih =>
    have later := ih fun cls message millis mem => covers cls message millis (.tail _ mem)
    have first := single c fun cls message millis same => covers cls message millis (same ▸ .head _)
    show (profiles.map fun p => c.added (.calls p.cls p.message) +
      total t (.calls p.cls p.message)).sum = _
    rw [List.sum_map_add, first, later, times, times, List.countP_cons, Nat.add_comm]

/-- **Profiles.**  There is one for each key, their calls add up to the times that were kept, and
the total time of each is at least its highest time and at most what its calls could take. -/
theorem profiles_of_fits {t : Tally} (fits : t.Fits) :
    let profiles := (({} : Statistics).countAll t).profiles
    (profiles.map Profile.key).Nodup ∧
    (profiles.map fun p => p.calls.toNat).sum = t.times ∧
    ∀ p ∈ profiles, p.highest ≤ p.total ∧ p.total.toNat ≤ p.calls.toNat * p.highest.toNat := by
  intro profiles
  have profiled : t.IsProfiled profiles := .countAll {} rfl t
  have shown {p : Profile} (hp : p ∈ profiles) :
      p.calls.toNat = t.total (.calls p.cls p.message) ∧
        p.total.toNat = t.total (.total p.cls p.message) := by
    have found := Statistics.profile?_of_mem profiled.distinct hp
    have calls := toNat_get fits (.calls p.cls p.message)
    have total := toNat_get fits (.total p.cls p.message)
    simp only [Statistics.get, found, Option.map_some, Option.getD_some] at calls total
    exact ⟨calls, total⟩
  refine ⟨profiled.distinct, ?_, fun p hp => ?_⟩
  · rw [← sum_calls profiled.distinct t profiled.covers]
    exact congrArg List.sum (List.map_congr_left fun p hp => (shown hp).1)
  · obtain ⟨least, most⟩ := profiled.highest_le_total hp
    rw [UInt64.le_iff_toNat_le, (shown hp).1, (shown hp).2]
    exact ⟨least, most⟩

end Tally

/-! ## The slowest send -/

/-- The first of the greatest. -/
def Slowest.IsFirstOf (x : Slowest) (xs : List Slowest) : Prop :=
  ∃ before after, xs = before ++ x :: after ∧ (∀ y ∈ before, y.millis < x.millis) ∧
    ∀ y ∈ after, y.millis ≤ x.millis

theorem Slowest.IsFirstOf.ne_nil {x : Slowest} {xs : List Slowest} (h : x.IsFirstOf xs) :
    xs ≠ [] := by
  obtain ⟨before, after, rfl, -⟩ := h
  exact List.append_ne_nil_of_right_ne_nil before (List.cons_ne_nil x after)

/-- A send that has ended. -/
def Count.ended? : Count → Option Slowest
  | ended receiver message counts => some ⟨counts.millis, receiver, message⟩
  | _ => none

/-- One more that is not greater. -/
theorem Slowest.IsFirstOf.append {x y : Slowest} {xs : List Slowest} (h : x.IsFirstOf xs)
    (le : y.millis ≤ x.millis) : x.IsFirstOf (xs ++ [y]) := by
  obtain ⟨before, after, rfl, less, least⟩ := h
  refine ⟨before, after ++ [y], by rw [List.append_assoc, List.cons_append], less, ?_⟩
  exact List.forall_mem_append.mpr ⟨least, List.forall_mem_singleton.mpr le⟩

/-- One more that is greater. -/
theorem Slowest.IsFirstOf.replace {x y : Slowest} {xs : List Slowest} (h : x.IsFirstOf xs)
    (lt : x.millis < y.millis) : y.IsFirstOf (xs ++ [y]) := by
  obtain ⟨before, after, rfl, less, least⟩ := h
  refine ⟨before ++ x :: after, [], rfl, ?_, fun _ mem => (by cases mem)⟩
  refine List.forall_mem_append.mpr
    ⟨fun z mem => ?_, List.forall_mem_cons.mpr ⟨lt, fun z mem => ?_⟩⟩
  · exact UInt64.lt_trans (less z mem) lt
  · exact UInt64.lt_of_le_of_lt (least z mem) lt

/-- When a send ends, it takes the place of the slowest one if it took longer. -/
theorem Statistics.slowest_countAll_ended (s : Statistics) (receiver : ObjectId)
    (message : MessageId) (counts : SendCounts) :
    (s.countAll [.ended receiver message counts]).slowest =
      match s.slowest with
      | some slow =>
        if slow.millis < counts.millis then some ⟨counts.millis, receiver, message⟩ else some slow
      | none => some ⟨counts.millis, receiver, message⟩ := rfl

/-- **The slowest send** is the first one of those that took longest. -/
theorem Statistics.slowest_countAll {s : Statistics} (fresh : s.slowest = none) (t : Tally) :
    ((s.countAll t).slowest = none → t.filterMap Count.ended? = []) ∧
      ∀ x, (s.countAll t).slowest = some x → x.IsFirstOf (t.filterMap Count.ended?) := by
  induction t using List.reverseRecOn with
  | nil =>
    rw [countAll_nil, fresh]
    exact ⟨fun _ => rfl, fun x h => by cases h⟩
  | append_singleton t c ih =>
    rw [countAll_append, List.filterMap_append]
    generalize s.countAll t = before at ih
    cases c with
    | ended receiver message counts =>
      let new : Slowest := ⟨counts.millis, receiver, message⟩
      rw [slowest_countAll_ended,
        show [Count.ended receiver message counts].filterMap Count.ended? = [new] from rfl]
      cases slowest : before.slowest with
      | none =>
        refine ⟨fun h => (by cases h), fun x h => ?_⟩
        cases h
        rw [ih.1 slowest]
        exact ⟨[], [], rfl, fun _ mem => (by cases mem), fun _ mem => (by cases mem)⟩
      | some slow =>
        have first := ih.2 slow slowest
        dsimp only
        split
        · refine ⟨fun h => (by cases h), fun x h => ?_⟩
          cases h
          exact first.replace ‹_›
        · refine ⟨fun h => (by cases h), fun x h => ?_⟩
          cases h
          exact first.append (UInt64.not_lt.mp ‹_›)
    | time cls message millis =>
      have same : (before.countAll [.time cls message millis]).slowest = before.slowest := by
        show (before.countTime cls message millis).slowest = _
        rcases before.countTime_cases cls message millis with ⟨-, e⟩ | ⟨-, e⟩
        · rw [e]
        · rw [e]
      rw [same, show [Count.time cls message millis].filterMap Count.ended? = [] from rfl,
        List.append_nil]
      exact ih
    | began settings | handler depth | native slot =>
      show (before.slowest = none → t.filterMap Count.ended? ++ [] = []) ∧
        ∀ x, before.slowest = some x → x.IsFirstOf (t.filterMap Count.ended? ++ [])
      rw [List.append_nil]
      exact ih

end MessageMachine
