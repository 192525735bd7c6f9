import Mathlib.Data.List.Dedup
import Mathlib.Data.List.Sort
import MessageMachine.Proofs.Tally

/-!
# The ranking of profiles

Profiles are kept in no order that means anything, and the ranking has to be the same whatever
that order is.  It is, because `Profile.Outranks` is a strict order that leaves no two profiles
of different handlers on a level: by total time, then by number of calls, then by class and
message.  A list that is strictly sorted is known from its members alone, and the members are
known from what was recorded: for each handler that was timed, the number, the sum and the
greatest of its times (`Profile.Summarizes`).

So neither the order in which profiles are kept shows in the ranking, nor the order in which times
were recorded, nor anything else that was counted between them (`Statistics.topProfiles_canonical`).
-/

namespace MessageMachine

/-! ## The order -/

namespace Profile

/-- `p` ranks before `q`, and not equal to it. -/
def Outranks (p q : Profile) : Prop :=
  q.total < p.total ∨ p.total = q.total ∧
    (q.calls < p.calls ∨ p.calls = q.calls ∧
      (p.cls.number < q.cls.number ∨ p.cls = q.cls ∧ p.message.number < q.message.number))

/-- The profiles are on a level: nothing that ranks them differs. -/
def Levels (p q : Profile) : Prop :=
  p.total = q.total ∧ p.calls = q.calls ∧ p.cls = q.cls ∧ p.message = q.message

variable {p q r : Profile}

theorem cls_eq_iff : p.cls = q.cls ↔ p.cls.number.toNat = q.cls.number.toNat := by
  rw [UInt32.toNat_inj]
  exact ⟨congrArg _, fun h => congrArg ClassId.mk h⟩

theorem message_eq_iff :
    p.message = q.message ↔ p.message.number.toNat = q.message.number.toNat := by
  rw [UInt32.toNat_inj]
  exact ⟨congrArg _, fun h => congrArg MessageId.mk h⟩

/-- The order in terms of numbers. -/
theorem outranks_iff : p.Outranks q ↔
    q.total.toNat < p.total.toNat ∨ p.total.toNat = q.total.toNat ∧
      (q.calls.toNat < p.calls.toNat ∨ p.calls.toNat = q.calls.toNat ∧
        (p.cls.number.toNat < q.cls.number.toNat ∨
          p.cls.number.toNat = q.cls.number.toNat ∧
            p.message.number.toNat < q.message.number.toNat)) := by
  simp only [Outranks, UInt64.lt_iff_toNat_lt, UInt32.lt_iff_toNat_lt, cls_eq_iff,
    UInt64.toNat_inj]

theorem levels_iff : p.Levels q ↔
    p.total.toNat = q.total.toNat ∧ p.calls.toNat = q.calls.toNat ∧
      p.cls.number.toNat = q.cls.number.toNat ∧
        p.message.number.toNat = q.message.number.toNat := by
  simp only [Levels, cls_eq_iff, message_eq_iff, UInt64.toNat_inj]

theorem outranks_irrefl (p : Profile) : ¬ p.Outranks p := by
  rw [outranks_iff]
  omega

theorem Outranks.trans (h : p.Outranks q) (h' : q.Outranks r) : p.Outranks r := by
  rw [outranks_iff] at h h' ⊢
  omega

/-- **One of two profiles outranks the other**, unless they are on a level. -/
theorem outranks_trichotomy (p q : Profile) : p.Outranks q ∨ p.Levels q ∨ q.Outranks p := by
  rw [outranks_iff, levels_iff, outranks_iff]
  omega

instance : Std.Irrefl Outranks := ⟨outranks_irrefl⟩

instance : Std.Antisymm Outranks :=
  ⟨fun p _ h h' => absurd (h.trans h') (outranks_irrefl p)⟩

/-- A profile is put before another that it outranks or that is on a level with it. -/
theorem ranksBefore_iff : p.ranksBefore q = true ↔ p.Outranks q ∨ p.Levels q := by
  unfold ranksBefore Outranks Levels
  split
  · simp_all
  split
  · simp_all
  split
  · simp_all
  · rename_i total calls cls
    rw [not_not] at total calls cls
    simp only [total, calls, cls, decide_eq_true_eq, UInt64.lt_irrefl, UInt32.lt_irrefl, false_or,
      true_and, message_eq_iff, UInt32.lt_iff_toNat_lt, UInt32.le_iff_toNat_le]
    omega

theorem ranksBefore_trans (p q r : Profile) (h : p.ranksBefore q = true)
    (h' : q.ranksBefore r = true) : p.ranksBefore r = true := by
  rw [ranksBefore_iff, outranks_iff, levels_iff] at h h' ⊢
  omega

theorem ranksBefore_total (p q : Profile) : (p.ranksBefore q || q.ranksBefore p) = true := by
  rw [Bool.or_eq_true, ranksBefore_iff, ranksBefore_iff]
  rcases outranks_trichotomy p q with before | level | behind
  · exact .inl (.inl before)
  · exact .inl (.inr level)
  · exact .inr (.inl behind)

end Profile

namespace Statistics

theorem mem_ranking {s : Statistics} {p : Profile} : p ∈ s.ranking ↔ p ∈ s.profiles :=
  List.mem_mergeSort

theorem ranking_keys_perm (s : Statistics) :
    (s.ranking.map Profile.key).Perm (s.profiles.map Profile.key) :=
  (List.mergeSort_perm s.profiles Profile.ranksBefore).map Profile.key

/-- **The ranking is strictly sorted**, if there is one profile for each key. -/
theorem pairwise_ranking {s : Statistics} (distinct : (s.profiles.map Profile.key).Nodup) :
    s.ranking.Pairwise Profile.Outranks := by
  have sorted : s.ranking.Pairwise fun p q => p.ranksBefore q = true :=
    List.pairwise_mergeSort Profile.ranksBefore_trans Profile.ranksBefore_total s.profiles
  have keys : s.ranking.Pairwise fun p q => p.key ≠ q.key :=
    List.pairwise_map.mp (s.ranking_keys_perm.nodup_iff.mpr distinct)
  refine (sorted.and keys).imp fun {p q} h => ?_
  -- two profiles on a level would have one key
  refine (Profile.ranksBefore_iff.mp h.1).resolve_right fun level => h.2 ?_
  exact Prod.ext level.2.2.1 level.2.2.2

/-- Statistics with the same profiles have the same ranking. -/
theorem ranking_congr {s s' : Statistics} (distinct : (s.profiles.map Profile.key).Nodup)
    (distinct' : (s'.profiles.map Profile.key).Nodup)
    (same : ∀ p, p ∈ s.profiles ↔ p ∈ s'.profiles) : s.ranking = s'.ranking := by
  refine (pairwise_ranking distinct).eq_of_mem_iff (pairwise_ranking distinct') fun p => ?_
  rw [mem_ranking, mem_ranking, same]

end Statistics

/-! ## What was recorded -/

/-- A time that was kept: the handler that took it, and the time. -/
def Count.timed? : Count → Option ((ClassId × MessageId) × UInt64)
  | .time cls message millis => some ((cls, message), millis)
  | _ => none

namespace Tally

/-- The times that were kept, in order, each with its handler. -/
def recordings (t : Tally) : List ((ClassId × MessageId) × UInt64) := t.filterMap Count.timed?

/-- The times that a handler took, in order. -/
def timesOf (t : Tally) (key : ClassId × MessageId) : List UInt64 :=
  (t.recordings.filter fun r => r.1 = key).map Prod.snd

variable {t t' : Tally} {cls : ClassId} {message : MessageId}

theorem mem_timesOf {millis : UInt64} :
    millis ∈ t.timesOf (cls, message) ↔ .time cls message millis ∈ t := by
  rw [timesOf, List.mem_map]
  constructor
  · rintro ⟨⟨key, kept⟩, mem, rfl⟩
    obtain ⟨recorded, same⟩ := List.mem_filter.mp mem
    obtain ⟨c, hc, timed⟩ := List.mem_filterMap.mp recorded
    cases of_decide_eq_true same
    cases c <;> cases timed
    exact hc
  · intro mem
    refine ⟨((cls, message), millis), List.mem_filter.mpr ⟨?_, decide_eq_true rfl⟩, rfl⟩
    exact List.mem_filterMap.mpr ⟨_, mem, rfl⟩

theorem mem_recorded {key : ClassId × MessageId} : key ∈ t.recordings.map Prod.fst ↔
    ∃ millis, .time key.1 key.2 millis ∈ t := by
  rw [List.mem_map]
  constructor
  · rintro ⟨⟨key, millis⟩, mem, rfl⟩
    obtain ⟨c, hc, timed⟩ := List.mem_filterMap.mp mem
    cases c <;> cases timed
    exact ⟨millis, hc⟩
  · rintro ⟨millis, mem⟩
    exact ⟨(key, millis), List.mem_filterMap.mpr ⟨_, mem, rfl⟩, rfl⟩

/-- What a tally tells the counters of a profile: the number and the sum of the times. -/
theorem total_profile (t : Tally) (cls : ClassId) (message : MessageId) :
    t.total (.calls cls message) = (t.timesOf (cls, message)).length ∧
      t.total (.total cls message) = ((t.timesOf (cls, message)).map UInt64.toNat).sum := by
  unfold timesOf recordings total
  induction t with
  | nil => exact ⟨rfl, rfl⟩
  | cons c t ih =>
    cases c with
    | time c m millis =>
      simp only [List.map_cons, List.sum_cons, List.filterMap_cons, Count.timed?,
        List.filter_cons, Count.added, ih]
      by_cases own : (c, m) = (cls, message)
      · simp only [own, if_true, decide_true, List.map_cons, List.length_cons, List.sum_cons]
        exact ⟨Nat.add_comm _ _, trivial⟩
      · simp only [own, if_false, decide_false, Bool.false_eq_true, Nat.zero_add]
        exact ⟨trivial, trivial⟩
    | _ =>
      simp only [List.map_cons, List.sum_cons, List.filterMap_cons, Count.timed?, Count.added,
        Nat.zero_add, ih]
      exact ⟨trivial, trivial⟩

theorem timesOf_perm (perm : t'.recordings.Perm t.recordings) (key : ClassId × MessageId) :
    (t'.timesOf key).Perm (t.timesOf key) :=
  (perm.filter _).map _

end Tally

/-- The profile has the number of the times of its handler, their sum, and the greatest of them.
Number and sum are cut to a word, if they do not fit it. -/
structure Profile.Summarizes (p : Profile) (t : Tally) : Prop where
  calls : p.calls = .ofNat (t.timesOf p.key).length
  total : p.total = .ofNat ((t.timesOf p.key).map UInt64.toNat).sum
  attained : p.highest ∈ t.timesOf p.key
  bounds : ∀ millis ∈ t.timesOf p.key, millis ≤ p.highest

namespace Profile.Summarizes

variable {p q : Profile} {t t' : Tally}

/-- A handler was timed if there is a profile for it. -/
theorem recorded (h : p.Summarizes t) : p.key ∈ t.recordings.map Prod.fst :=
  Tally.mem_recorded.mpr ⟨_, Tally.mem_timesOf.mp h.attained⟩

/-- There is no more than one summary for each key. -/
theorem unique (h : p.Summarizes t) (h' : q.Summarizes t) (key : p.key = q.key) : p = q := by
  have calls : p.calls = q.calls := by rw [h.calls, h'.calls, key]
  have total : p.total = q.total := by rw [h.total, h'.total, key]
  have highest : p.highest = q.highest :=
    UInt64.le_antisymm (h'.bounds _ (key ▸ h.attained)) (h.bounds _ (key ▸ h'.attained))
  obtain ⟨cls, message⟩ := Prod.mk.inj key
  cases p
  cases q
  simp_all

/-- The order of the recordings does not matter. -/
theorem of_perm (h : p.Summarizes t) (perm : t'.recordings.Perm t.recordings) :
    p.Summarizes t' := by
  have times := Tally.timesOf_perm perm p.key
  refine ⟨?_, ?_, times.mem_iff.mpr h.attained, fun millis mem => ?_⟩
  · rw [times.length_eq]
    exact h.calls
  · rw [(times.map _).sum_eq]
    exact h.total
  · exact h.bounds millis (times.mem_iff.mp mem)

end Profile.Summarizes

namespace Statistics

variable {t : Tally}

theorem nodup_key (t : Tally) : ((({} : Statistics).countAll t).profiles.map Profile.key).Nodup :=
  (Tally.IsProfiled.countAll {} rfl t).distinct

/-- **The profiles are the summaries** of what was recorded. -/
theorem mem_profiles_iff {p : Profile} :
    p ∈ (({} : Statistics).countAll t).profiles ↔ p.Summarizes t := by
  have profiled : t.IsProfiled (({} : Statistics).countAll t).profiles := .countAll {} rfl t
  have summary {p : Profile} (mem : p ∈ (({} : Statistics).countAll t).profiles) :
      p.Summarizes t := by
    have found := profile?_of_mem profiled.distinct mem
    have calls := get_countAll {} (.calls p.cls p.message) t
    have total := get_countAll {} (.total p.cls p.message) t
    rw [get_empty, UInt64.zero_add, (t.total_profile p.cls p.message).1] at calls
    rw [get_empty, UInt64.zero_add, (t.total_profile p.cls p.message).2] at total
    simp only [get, found, Option.map_some, Option.getD_some] at calls total
    refine ⟨calls, total, ?_, fun millis mem' => ?_⟩
    · exact Tally.mem_timesOf.mpr (profiled.attained p mem)
    · exact profiled.bounds p mem millis (Tally.mem_timesOf.mp mem')
  refine ⟨summary, fun h => ?_⟩
  obtain ⟨millis, timed⟩ := Tally.mem_recorded.mp h.recorded
  obtain ⟨q, mem, key⟩ := List.mem_map.mp (profiled.covers _ _ _ timed)
  rw [h.unique (summary mem) key.symm]
  exact mem

/-- The keys of the ranking are those that were recorded. -/
theorem mem_ranking_keys (key : ClassId × MessageId) :
    key ∈ (({} : Statistics).countAll t).ranking.map Profile.key ↔
      key ∈ t.recordings.map Prod.fst := by
  constructor
  · intro mem
    obtain ⟨p, kept, rfl⟩ := List.mem_map.mp mem
    exact (mem_profiles_iff.mp (mem_ranking.mp kept)).recorded
  · intro mem
    obtain ⟨millis, timed⟩ := Tally.mem_recorded.mp mem
    have covered := (Tally.IsProfiled.countAll {} rfl t).covers _ _ _ timed
    exact (ranking_keys_perm _).mem_iff.mpr covered

theorem nodup_ranking_keys (t : Tally) :
    ((({} : Statistics).countAll t).ranking.map Profile.key).Nodup :=
  (ranking_keys_perm _).nodup_iff.mpr (nodup_key t)

/-- There are as many profiles as handlers that were timed. -/
theorem length_ranking (t : Tally) :
    (({} : Statistics).countAll t).ranking.length = (t.recordings.map Prod.fst).dedup.length := by
  have keys : ((({} : Statistics).countAll t).ranking.map Profile.key).Perm
      (t.recordings.map Prod.fst).dedup := by
    refine (List.perm_ext_iff_of_nodup (nodup_ranking_keys t) (List.nodup_dedup _)).mpr
      fun key => ?_
    rw [List.mem_dedup]
    exact mem_ranking_keys key
  rw [← keys.length_eq, List.length_map]

/-- The order in which the profiles are kept does not matter. -/
theorem ranking_of_perm {s : Statistics} (distinct : (s.profiles.map Profile.key).Nodup)
    {profiles : List Profile} (perm : profiles.Perm s.profiles) :
    ({ s with profiles } : Statistics).ranking = s.ranking :=
  ranking_congr ((perm.map _).nodup_iff.mpr distinct) distinct fun _ => perm.mem_iff

/-- The order of the recordings does not matter. -/
theorem ranking_of_recordings {t' : Tally} (perm : t'.recordings.Perm t.recordings) :
    (({} : Statistics).countAll t').ranking = (({} : Statistics).countAll t).ranking := by
  refine ranking_congr (nodup_key t') (nodup_key t) fun p => ?_
  rw [mem_profiles_iff, mem_profiles_iff]
  exact ⟨fun h => h.of_perm perm.symm, fun h => h.of_perm perm⟩

/-- **The ranking is one definite list.**  Take anything that is counted, starting
from empty statistics.

The most expensive profiles, `limit` of them or all if there are fewer, are the first ones of the
ranking.  This has each handler that was timed once and no other.  Its profile has as many calls as
times were recorded, their sum, as long as these fit a word, and the greatest of them.  The ranking
is strictly sorted: by total time and by number of calls, the highest first, and by class and
message, the lowest first.

It does not depend on the order in which the profiles are kept, nor on the order
of the recordings. -/
theorem topProfiles_canonical (t : Tally) :
    let s := ({} : Statistics).countAll t
    let ranked := s.ranking
    (∀ limit, s.topProfiles limit = ranked.take limit ∧
      (s.topProfiles limit).length = min limit (t.recordings.map Prod.fst).dedup.length) ∧
    (ranked.map Profile.key).Nodup ∧
    (∀ key, key ∈ ranked.map Profile.key ↔ key ∈ t.recordings.map Prod.fst) ∧
    (∀ p ∈ ranked,
      let times := t.timesOf p.key
      (times.length < UInt64.size → p.calls.toNat = times.length) ∧
      ((times.map UInt64.toNat).sum < UInt64.size → p.total.toNat = (times.map UInt64.toNat).sum) ∧
      p.highest ∈ times ∧ ∀ millis ∈ times, millis ≤ p.highest) ∧
    ranked.Pairwise Profile.Outranks ∧
    (∀ profiles, profiles.Perm s.profiles →
      ∀ limit, { s with profiles }.topProfiles limit = s.topProfiles limit) ∧
    ∀ t' : Tally, t'.recordings.Perm t.recordings →
      ∀ limit, (({} : Statistics).countAll t').topProfiles limit = s.topProfiles limit := by
  intro s ranked
  refine ⟨fun limit => ⟨rfl, ?_⟩, nodup_ranking_keys t, mem_ranking_keys, fun p mem => ?_,
    pairwise_ranking (nodup_key t), fun profiles perm limit => ?_, fun t' perm limit => ?_⟩
  · rw [topProfiles, List.length_take, length_ranking]
  · have summary : p.Summarizes t := mem_profiles_iff.mp (mem_ranking.mp mem)
    refine ⟨fun fits => ?_, fun fits => ?_, summary.attained, summary.bounds⟩
    · rw [summary.calls, UInt64.toNat_ofNat_of_lt' fits]
    · rw [summary.total, UInt64.toNat_ofNat_of_lt' fits]
  · rw [topProfiles, topProfiles, ranking_of_perm (nodup_key t) perm]
  · rw [topProfiles, topProfiles, ranking_of_recordings perm]

end Statistics

end MessageMachine
