import MessageMachine.Proofs.Engine.Delivery
import MessageMachine.Proofs.Machine.Tally

/-!
# The statistics of a history

`Engine.tally` is what the top-level sends of a history count, deliveries of posts included.  The
statistics that a history leaves behind are those before it with just that counted: nothing else
that a keeper does is counted (`Meter.Runs.statistics`).  So where the statistics were empty at
first, and no counter gets more than its word holds, the counters show the totals of the tally, and
what they have to do with one another is known from tallies (`Engine.statistics_add_up`).

The same goes for the clock.  A history only reads it, and each send takes the time from its first
reading to its last one.  The sends follow one another, so their times fit between the first reading
of the history and the last one, provided that the clock never goes back.  No deed sets the clock or
moves it on; but the course of a clock is arbitrary, and may take whatever its keeper does to it
between two readings into account.
-/

namespace MessageMachine

/-- What an engine counts, and the clock that it reads. -/
structure Meter where
  statistics : Statistics
  clock : Clock

def Engine.meter (e : Engine) : Meter := ⟨e.statistics, e.world.clock⟩

/-! ## One send -/

namespace Sending

/-- The engine after the send. -/
def after (s : Sending) : Engine := (s.engine.send s.send).2

/-- What is recorded of the send when it has ended. -/
def recorded (s : Sending) : SendCounts := s.after.statistics.last

/-- How slow the send was. -/
def slowness (s : Sending) : Slowest := ⟨s.recorded.millis, s.send.receiver, s.send.message⟩

/-- The state in which the run of the send ends. -/
def run (s : Sending) : Machine := (s.engine.start s.send).run s.engine.environment

/-- What the run of the send counts. -/
def runTally (s : Sending) : Tally := (s.engine.start s.send).tally s.engine.environment

/-- What the send counts. -/
def tally (s : Sending) : Tally :=
  .began s.engine.settings :: s.runTally ++ [.ended s.send.receiver s.send.message s.recorded]

theorem counts_run {s : Sending} (hn : s.engine.natives.IsStandard) :
    s.run.session.statistics =
        s.engine.statistics.countAll (.began s.engine.settings :: s.runTally) ∧
      s.run.session.nativeCalls = s.runTally.total .nativeCalls := by
  have natives : s.engine.environment.natives.IsStandard := hn
  obtain ⟨statistics, nativeCalls⟩ := Machine.counts_run natives (s.engine.start s.send)
  exact ⟨statistics, nativeCalls.trans (Nat.zero_add _)⟩

/-- **A send counts what its tally says**, and nothing else. -/
theorem statistics_after {s : Sending} (hn : s.engine.natives.IsStandard) :
    s.after.statistics = s.engine.statistics.countAll s.tally := by
  have ended : s.after.statistics =
      s.run.session.statistics.countAll [.ended s.send.receiver s.send.message s.recorded] := rfl
  rw [ended, (counts_run hn).1, ← Statistics.countAll_append]
  rfl

theorem total_tally (s : Sending) (k : Counter) :
    s.tally.total k = (Count.began s.engine.settings).added k + s.runTally.total k +
      (Count.ended s.send.receiver s.send.message s.recorded).added k := by
  rw [tally, Tally.total_append]
  rfl

/-- What is recorded of a send is what it tells the counters. -/
theorem total_recorded (s : Sending) :
    s.tally.total .topLevel = 1 ∧ s.tally.total .statements = s.recorded.statements.toNat ∧
      s.tally.total .millis = s.recorded.millis.toNat := by
  obtain ⟨topLevel, statements, millis⟩ := Tally.total_of_inner (t := s.runTally)
    fun _ => Machine.isOuter_of_mem_tally
  rw [total_tally, total_tally, total_tally, topLevel, statements, millis]
  exact ⟨rfl, Nat.zero_add _, Nat.zero_add _⟩

/-- The native calls that are recorded are those of all slots. -/
theorem nativeCalls_recorded {s : Sending} (hn : s.engine.natives.IsStandard)
    (fits : s.tally.total .nativeCalls < UInt64.size) :
    s.recorded.nativeCalls.toNat = s.tally.total .nativeCalls := by
  have total : s.tally.total .nativeCalls = s.runTally.total .nativeCalls :=
    (s.total_tally .nativeCalls).trans (Nat.zero_add _)
  have shown : s.recorded.nativeCalls = .ofNat (s.tally.total .nativeCalls) := by
    rw [total]
    exact congrArg UInt64.ofNat (counts_run hn).2
  rw [shown]
  exact UInt64.toNat_ofNat_of_lt' fits

/-- The only send from the top that ends is the send itself. -/
theorem ended_tally (s : Sending) : s.tally.filterMap Count.ended? = [s.slowness] := by
  have none : s.runTally.filterMap Count.ended? = [] := by
    refine List.filterMap_eq_nil_iff.mpr fun c hc => ?_
    have inner := Machine.isOuter_of_mem_tally hc
    cases c with
    | ended => cases inner
    | _ => rfl
  have split : s.tally.filterMap Count.ended? =
      s.runTally.filterMap Count.ended? ++ [s.slowness] :=
    List.filterMap_append
  rw [split, none, List.nil_append]

/-- As many times are kept as handlers have begun, if times are kept. -/
theorem times_tally {s : Sending} (profile : s.engine.settings.profile = true) :
    s.tally.times = s.tally.total .messages := by
  have kept : s.engine.environment.settings.profile = true := profile
  have run : s.runTally.times = 0 + s.runTally.total .messages :=
    Machine.times_tally kept (s.engine.start s.send) (fun _ hx => by cases hx)
      (fun halted => by cases halted)
  have times : s.tally.times = s.runTally.times := by
    rw [tally, Tally.times_append]
    rfl
  rw [times, total_tally, run]
  rfl

/-- The clock is read when the send begins and when it has ended, and perhaps in between. -/
theorem clock_after {s : Sending} (hn : s.engine.natives.IsStandard) :
    ∃ n, s.engine.meter.clock.readings < n ∧ s.after.meter.clock.readings = n + 1 ∧
      s.after.meter.clock.shows = s.engine.meter.clock.shows ∧
      s.recorded.millis = Clock.elapsed
        (s.engine.meter.clock.shows s.engine.meter.clock.readings)
        (s.engine.meter.clock.shows n) := by
  have natives : s.engine.environment.natives.IsStandard := hn
  have readOn : s.engine.meter.clock.read.2.ReadOn s.run.session.world.clock :=
    Machine.readOn_run natives (s.engine.start s.send)
  have shows : s.run.session.world.clock.shows = s.engine.meter.clock.shows := readOn.shows
  refine ⟨s.run.session.world.clock.readings, readOn.readings, rfl, shows, ?_⟩
  rw [← shows]
  exact congrArg (Clock.elapsed · _) (congrFun shows s.engine.meter.clock.readings).symm

end Sending

/-! ## Sends that follow one another -/

/-- The sends lead from one state of the meter to the other.  In between, nothing is counted and the
clock is left alone. -/
inductive Meter.Runs : Meter → List Sending → Meter → Prop
  | done (μ : Meter) : Runs μ [] μ
  | send {s : Sending} {sendings : List Sending} {μ : Meter}
      (later : Runs s.after.meter sendings μ) :
      Runs s.engine.meter (s :: sendings) μ

namespace Meter.Runs

variable {μ μ' μ'' : Meter} {sendings sendings' : List Sending}

theorem single (s : Sending) : Meter.Runs s.engine.meter [s] s.after.meter := .send (.done _)

theorem append (h : Meter.Runs μ sendings μ') (h' : Meter.Runs μ' sendings' μ'') :
    Meter.Runs μ (sendings ++ sendings') μ'' := by
  induction h with
  | done => exact h'
  | send _ ih => exact .send (ih h')

/-- **Nothing but sends is counted.** -/
theorem statistics (h : Meter.Runs μ sendings μ')
    (hn : ∀ s ∈ sendings, s.engine.natives.IsStandard) :
    μ'.statistics = μ.statistics.countAll (sendings.flatMap Sending.tally) := by
  induction h with
  | done => rfl
  | @send s sendings _ _ ih =>
    have first : s.after.meter.statistics = _ := Sending.statistics_after (hn s List.mem_cons_self)
    rw [ih fun s' hs => hn s' (List.mem_cons_of_mem s hs), first, List.flatMap_cons,
      Statistics.countAll_append]
    rfl

theorem readOn (h : Meter.Runs μ sendings μ') (hn : ∀ s ∈ sendings, s.engine.natives.IsStandard) :
    μ.clock.ReadOn μ'.clock := by
  induction h with
  | done => exact .refl _
  | @send s sendings _ _ ih =>
    obtain ⟨n, later, readings, shows, -⟩ := Sending.clock_after (hn s List.mem_cons_self)
    have first : s.engine.meter.clock.ReadOn s.after.meter.clock :=
      ⟨shows, by rw [readings]; exact Nat.le_succ_of_le later.le⟩
    exact first.trans (ih fun s' hs => hn s' (List.mem_cons_of_mem s hs))

/-- **The times of all sends fit between the readings**, if the clock never goes back. -/
theorem sum_millis_le (h : Meter.Runs μ sendings μ')
    (hn : ∀ s ∈ sendings, s.engine.natives.IsStandard) {low high : Nat} (low_le : low ≤ high)
    (bounds : ∀ i, μ.clock.readings ≤ i → i < μ'.clock.readings →
      low ≤ (μ.clock.shows i).toNat ∧ (μ.clock.shows i).toNat ≤ high)
    (mono : ∀ i j, μ.clock.readings ≤ i → i ≤ j → j < μ'.clock.readings →
      μ.clock.shows i ≤ μ.clock.shows j) :
    (sendings.map fun s => s.recorded.millis.toNat).sum + low ≤ high := by
  induction h generalizing low with
  | done => exact (Nat.zero_add low).symm ▸ low_le
  | @send s sendings μ' later ih =>
    have hn' : ∀ s' ∈ sendings, s'.engine.natives.IsStandard :=
      fun s' hs => hn s' (List.mem_cons_of_mem s hs)
    obtain ⟨n, first_lt, readings, shows, millis⟩ := Sending.clock_after (hn s List.mem_cons_self)
    -- the send ends at the `n`-th reading, and the others come later
    have lt : n < μ'.clock.readings := by
      have le := (later.readOn hn').readings
      omega
    have rest := ih hn' (bounds n first_lt.le lt).2
      (fun i after before => by
        rw [shows]
        exact ⟨UInt64.le_iff_toNat_le.mp (mono n i first_lt.le (by omega) before),
          (bounds i (by omega) before).2⟩)
      (fun i j after le before => by
        rw [shows]
        exact mono i j (by omega) le before)
    have started := mono _ n (Nat.le_refl _) first_lt.le lt
    have least := (bounds _ (Nat.le_refl _) (Nat.lt_trans first_lt lt)).1
    have took : s.recorded.millis.toNat + (s.engine.meter.clock.shows
        s.engine.meter.clock.readings).toNat = (s.engine.meter.clock.shows n).toNat := by
      rw [millis, Clock.elapsed, if_pos started, UInt64.toNat_sub_of_le _ _ started]
      exact Nat.sub_add_cancel (UInt64.le_iff_toNat_le.mp started)
    rw [List.map_cons, List.sum_cons]
    omega

end Meter.Runs

namespace Engine

/-! ## Histories -/

theorem meter_deliverPost (e : Engine) (post : Send) :
    (e.deliverPost post).meter = (Sending.mk e post).after.meter := by
  unfold deliverPost Sending.after
  split
  · rename_i outcome
    rw [outcome]
  · rename_i outcome
    rw [outcome]
    rfl

theorem runs_deliverOldest (count : Nat) (e : Engine) :
    Meter.Runs e.meter (e.oldestDeliveries count) (e.deliverOldest count).2.meter := by
  induction count generalizing e with
  | zero => exact .done _
  | succ count ih =>
    cases waiting : e.world.posts.waiting with
    | nil =>
      obtain ⟨round, sends⟩ := deliverOldest_of_empty (count + 1) waiting
      rw [round, sends]
      exact .done _
    | cons post others =>
      obtain ⟨round, sends⟩ := deliverOldest_of_cons count waiting
      have later := ih (e.popped.deliverPost post)
      rw [meter_deliverPost] at later
      rw [round, sends]
      exact .send later

theorem runs_act (e : Engine) (d : Deed) :
    Meter.Runs e.meter (e.sendingsOf d) (e.act d).meter := by
  cases d with
  | send s => exact .single ⟨e, s⟩
  | post p =>
    have same : ((e.post? p).getD e).meter = e.meter := by
      unfold post?
      cases e.world.posts.push? p <;> rfl
    show Meter.Runs e.meter [] ((e.post? p).getD e).meter
    rw [same]
    exact .done _
  | deliver => exact runs_deliverOldest _ e
  | configure | lend => exact .done _

theorem runs_after (e : Engine) (deeds : List Deed) :
    Meter.Runs e.meter (e.sendings deeds) (e.after deeds).meter := by
  induction deeds generalizing e with
  | nil => exact .done _
  | cons d deeds ih => exact (e.runs_act d).append (ih (e.act d))

/-! ## The tally of a history -/

/-- What a history counts. -/
def tally (e : Engine) (deeds : List Deed) : Tally := (e.sendings deeds).flatMap Sending.tally

variable {e : Engine} {deeds : List Deed}

theorem isStandard_sendings (hn : e.natives.IsStandard) :
    ∀ s ∈ e.sendings deeds, s.engine.natives.IsStandard := by
  intro s hs
  rw [natives_of_mem_sendings hs]
  exact hn

/-- **A history counts what its tally says**, and nothing else. -/
theorem statistics_after (hn : e.natives.IsStandard) :
    (e.after deeds).statistics = e.statistics.countAll (e.tally deeds) :=
  (e.runs_after deeds).statistics (isStandard_sendings hn)

/-- The counters show the totals, if they start at zero and the totals fit. -/
theorem toNat_get_after (hn : e.natives.IsStandard) (fresh : e.statistics = {})
    (fits : (e.tally deeds).Fits) (k : Counter) :
    ((e.after deeds).statistics.get k).toNat = (e.tally deeds).total k := by
  rw [statistics_after hn, fresh, Tally.toNat_get fits]

theorem total_tally (e : Engine) (deeds : List Deed) (k : Counter) :
    (e.tally deeds).total k = ((e.sendings deeds).map fun s => s.tally.total k).sum :=
  Tally.total_flatMap k _ _

/-- What the sends tell a counter is the total. -/
theorem total_of_sendings {k : Counter} {f : Sending → Nat}
    (h : ∀ s ∈ e.sendings deeds, s.tally.total k = f s) :
    (e.tally deeds).total k = ((e.sendings deeds).map f).sum := by
  rw [total_tally, List.map_congr_left h]

/-- The native calls that are recorded are the total, if that fits the word. -/
theorem total_nativeCalls (hn : e.natives.IsStandard) (fits : (e.tally deeds).Fits) :
    (e.tally deeds).total .nativeCalls =
      ((e.sendings deeds).map fun s => s.recorded.nativeCalls.toNat).sum := by
  refine total_of_sendings fun s hs =>
    (Sending.nativeCalls_recorded (isStandard_sendings hn s hs) ?_).symm
  have le : s.tally.total .nativeCalls ≤ (e.tally deeds).total .nativeCalls := by
    rw [total_tally]
    exact List.single_le_sum (fun _ _ => Nat.zero_le _) _ (List.mem_map_of_mem hs)
  exact Nat.lt_of_le_of_lt le (fits _)

/-- The sends from the top that end are those of the history, in order. -/
theorem ended_tally (e : Engine) (deeds : List Deed) :
    (e.tally deeds).filterMap Count.ended? = (e.sendings deeds).map Sending.slowness := by
  rw [tally, List.filterMap_flatMap]
  simp only [Sending.ended_tally]
  exact List.flatMap_pure_eq_map _ _

/-- As many times are kept as handlers have begun, if times are kept throughout. -/
theorem times_tally (profile : ∀ s ∈ e.sendings deeds, s.engine.settings.profile = true) :
    (e.tally deeds).times = (e.tally deeds).total .messages := by
  have times : (e.tally deeds).times = ((e.sendings deeds).map fun s => s.tally.times).sum :=
    List.countP_flatMap
  rw [times]
  exact (total_of_sendings fun s hs => (Sending.times_tally (profile s hs)).symm).symm

/-! ## The readings of a history -/

/-- What the clock shows at the readings of a history, one after the other. -/
def readings (e : Engine) (deeds : List Deed) : List UInt64 :=
  (List.range' e.world.clock.readings
    ((e.after deeds).world.clock.readings - e.world.clock.readings)).map e.world.clock.shows

/-- A reading of a history, by its place. -/
theorem getElem_readings {k : Nat} (h : k < (e.readings deeds).length) :
    (e.readings deeds)[k] = e.world.clock.shows (e.world.clock.readings + k) ∧
      e.world.clock.readings + k < (e.after deeds).world.clock.readings := by
  have lt := h
  rw [readings, List.length_map, List.length_range'] at lt
  refine ⟨?_, by omega⟩
  simp only [readings, List.getElem_map, List.getElem_range', Nat.one_mul]

theorem length_readings (e : Engine) (deeds : List Deed) :
    (e.readings deeds).length =
      (e.after deeds).world.clock.readings - e.world.clock.readings := by
  rw [readings, List.length_map, List.length_range']

/-- The clock never goes back, if its readings never do. -/
theorem shows_le_of_sorted (sorted : (e.readings deeds).Pairwise (· ≤ ·)) (i j : Nat)
    (first : e.world.clock.readings ≤ i) (le : i ≤ j)
    (last : j < (e.after deeds).world.clock.readings) :
    e.world.clock.shows i ≤ e.world.clock.shows j := by
  rcases Nat.eq_or_lt_of_le le with rfl | before
  · exact UInt64.le_refl _
  have length := e.length_readings deeds
  have le := List.pairwise_iff_getElem.mp sorted (i - e.world.clock.readings)
    (j - e.world.clock.readings) (by omega) (by omega) (by omega)
  rw [(getElem_readings _).1, (getElem_readings _).1, Nat.add_sub_cancel' first,
    Nat.add_sub_cancel' (Nat.le_trans first before.le)] at le
  exact le

/-- **The times of all sends fit between the first reading and the last**, if the clock
never goes back. -/
theorem sum_millis_le (hn : e.natives.IsStandard)
    (sorted : (e.readings deeds).Pairwise (· ≤ ·)) {first last : UInt64}
    (begins : (e.readings deeds).head? = some first)
    (ends : (e.readings deeds).getLast? = some last) :
    ((e.sendings deeds).map fun s => s.recorded.millis.toNat).sum + first.toNat ≤ last.toNat := by
  have mono := shows_le_of_sorted sorted
  have length := e.length_readings deeds
  rw [List.head?_eq_getElem?] at begins
  rw [List.getLast?_eq_getElem?] at ends
  obtain ⟨some, begins⟩ := List.getElem?_eq_some_iff.mp begins
  obtain ⟨ended, ends⟩ := List.getElem?_eq_some_iff.mp ends
  rw [(getElem_readings some).1] at begins
  rw [(getElem_readings ended).1] at ends
  subst begins ends
  refine (e.runs_after deeds).sum_millis_le (isStandard_sendings hn)
    (UInt64.le_iff_toNat_le.mp (mono _ _ (by omega) (by omega) (getElem_readings ended).2))
    (fun i after before => ?_) mono
  have before : i < (e.after deeds).world.clock.readings := before
  exact ⟨UInt64.le_iff_toNat_le.mp (mono _ i (by omega) after before),
    UInt64.le_iff_toNat_le.mp (mono i _ after (by omega) (getElem_readings ended).2)⟩

/-! ## The statistics -/

/-- **The statistics add up.**  Let the natives be standard and the statistics be empty at first,
and take any history that tells no counter more than its word holds.

There are as many sends from the top as the history makes, and as many statements, native calls and
milliseconds as are recorded of them.  The native calls are also those of all native slots
together.  If the clock never goes back, the milliseconds are no more than lie between its first
reading and its last.

The slowest send is the first one of those that took longest, once there has been a send.

No two profiles are of the same handler.  If times were kept throughout, the profiles have together
as many calls as handlers have run, however these have ended.  Each has a total time that is at
least its highest time, and at most what its calls take if each takes that long. -/
theorem statistics_add_up (e : Engine) (hn : e.natives.IsStandard) (fresh : e.statistics = {})
    (deeds : List Deed) (fits : (e.tally deeds).Fits) :
    let stats := (e.after deeds).statistics
    let sendings := e.sendings deeds
    let readings := e.readings deeds
    stats.topLevel.toNat = sendings.length ∧
    stats.statements.toNat = (sendings.map fun s => s.recorded.statements.toNat).sum ∧
    stats.nativeCalls.toNat = (sendings.map fun s => s.recorded.nativeCalls.toNat).sum ∧
    stats.nativeCalls.toNat = ∑ slot : UInt8, (stats.callsOf slot).toNat ∧
    stats.millis.toNat = (sendings.map fun s => s.recorded.millis.toNat).sum ∧
    (readings.Pairwise (· ≤ ·) → ∀ first last, readings.head? = some first →
      readings.getLast? = some last → stats.millis.toNat ≤ last.toNat - first.toNat) ∧
    (stats.slowest = none ↔ sendings = []) ∧
    (∀ x, stats.slowest = some x → x.IsFirstOf (sendings.map Sending.slowness)) ∧
    (stats.profiles.map Profile.key).Nodup ∧
    ((∀ s ∈ sendings, s.engine.settings.profile = true) →
      (stats.profiles.map fun p => p.calls.toNat).sum = stats.messages.toNat) ∧
    ∀ p ∈ stats.profiles,
      p.highest ≤ p.total ∧ p.total.toNat ≤ p.calls.toNat * p.highest.toNat := by
  intro stats sendings readings
  have counted : stats = ({} : Statistics).countAll (e.tally deeds) := by
    rw [← fresh]
    exact statistics_after hn
  have shown (k : Counter) : (stats.get k).toNat = (e.tally deeds).total k :=
    toNat_get_after hn fresh fits k
  have millis : stats.millis.toNat = (sendings.map fun s => s.recorded.millis.toNat).sum :=
    (shown .millis).trans (total_of_sendings fun s _ => s.total_recorded.2.2)
  have slowest := Statistics.slowest_countAll (s := {}) rfl (e.tally deeds)
  rw [← counted, ended_tally] at slowest
  obtain ⟨distinct, calls, times⟩ := Tally.profiles_of_fits fits
  rw [← counted] at distinct calls times
  refine ⟨(shown .topLevel).trans ?_,
    (shown .statements).trans (total_of_sendings fun s _ => s.total_recorded.2.1),
    (shown .nativeCalls).trans (total_nativeCalls hn fits), ?_, millis,
    fun sorted first last begins ends => ?_,
    ⟨fun none => List.map_eq_nil_iff.mp (slowest.1 none), fun empty => ?_⟩, slowest.2, distinct,
    fun profile => ?_, times⟩
  · rw [total_of_sendings fun s _ => s.total_recorded.1, List.map_const', List.sum_replicate,
      Nat.nsmul_eq_mul, Nat.mul_one]
  · show (stats.get .nativeCalls).toNat = ∑ slot : UInt8, (stats.get (.callsOf slot)).toNat
    simp only [shown]
    exact (Tally.sum_callsOf _).symm
  · have le := sum_millis_le hn sorted begins ends
    rw [millis]
    exact Nat.le_sub_of_add_le le
  · refine Option.eq_none_iff_forall_ne_some.mpr fun x slow => (slowest.2 x slow).ne_nil ?_
    exact List.map_eq_nil_iff.mpr empty
  · rw [calls, times_tally profile]
    exact (shown .messages).symm

/-- The engine `echoing`, when it keeps times and its clock runs faster and faster. -/
def timing : Engine :=
  { echoing with
    settings := { echoing.settings with profile := true }
    world := { echoing.world with clock := { course := fun n => .ofNat (n * n) } } }

theorem statistics_add_up_timing :
    let send : Send := ⟨⟨0⟩, ⟨1⟩, []⟩
    let deeds := [Deed.send send, .deliver]
    let stats := (timing.after deeds).statistics
    timing.natives.IsStandard ∧ timing.statistics = {} ∧ (timing.tally deeds).Fits ∧
      timing.readings deeds = [0, 1, 4, 9, 16, 25, 36, 49] ∧
      (∀ s ∈ timing.sendings deeds, s.engine.settings.profile = true) ∧
      stats.topLevel.toNat = 2 ∧ stats.statements.toNat = 2 + 2 ∧ stats.nativeCalls.toNat = 1 + 1 ∧
      stats.nativeCalls.toNat = ∑ slot : UInt8, (stats.callsOf slot).toNat ∧
      stats.millis.toNat = 9 + 33 ∧ stats.millis.toNat ≤ 49 - 0 ∧
      (∀ x, stats.slowest = some x → x.IsFirstOf [⟨9, ⟨0⟩, ⟨1⟩⟩, ⟨33, ⟨0⟩, ⟨1⟩⟩]) ∧
      (stats.profiles.map fun p => p.calls.toNat).sum = stats.messages.toNat := by
  intro send deeds stats
  let next := (timing.endSend send 0
    ((Machine.step timing.environment)^[5] (timing.start send)).session).popped
  have halts : ((Machine.step timing.environment)^[5]
      (timing.start send)).control.isHalted = true := by decide +kernel
  have halts' : ((Machine.step next.environment)^[5]
      (next.start send)).control.isHalted = true := by decide +kernel
  have first : (timing.send send).2 = timing.endSend send 0
      ((Machine.step timing.environment)^[5] (timing.start send)).session := by
    rw [send_eq, Machine.run_eq_iterate _ 5 _ halts]
    rfl
  have second : (next.send send).2 = next.endSend send next.beginSend.1
      ((Machine.step next.environment)^[5] (next.start send)).session := by
    rw [send_eq, Machine.run_eq_iterate _ 5 _ halts']
  have waiting : (timing.send send).2.world.posts.waiting = [send] := by
    rw [first]
    decide +kernel
  -- the post of the first send is delivered
  obtain ⟨round, delivered⟩ := deliverOldest_of_cons 0 waiting
  have sendings : timing.sendings deeds = [⟨timing, send⟩, ⟨next, send⟩] := by
    show ⟨timing, send⟩ :: ((timing.send send).2.deliveries ++ []) = _
    rw [deliveries, PostQueue.size, waiting, List.length_singleton, delivered, first]
    rfl
  have now : (timing.after deeds).meter = (next.send send).2.meter := by
    show (timing.send send).2.deliver.2.meter = _
    rw [deliver, PostQueue.size, waiting, List.length_singleton, round, first]
    exact meter_deliverPost next send
  have recorded : (Sending.mk timing send).recorded = ⟨2, 1, 9⟩ := by
    rw [Sending.recorded, Sending.after, first]
    decide +kernel
  have recorded' : (Sending.mk next send).recorded = ⟨2, 1, 33⟩ := by
    rw [Sending.recorded, Sending.after, second]
    decide +kernel
  have fits : (timing.tally deeds).Fits := by
    apply Tally.fits_of_sum_most
    rw [Engine.tally, sendings, List.flatMap_cons, List.flatMap_cons, Sending.tally, Sending.tally,
      recorded, recorded', Sending.runTally, Sending.runTally, Machine.tally_eq_iterate _ 5 _ halts,
      Machine.tally_eq_iterate _ 5 _ halts']
    decide +kernel
  have readings : timing.readings deeds = [0, 1, 4, 9, 16, 25, 36, 49] := by
    have count : (timing.after deeds).world.clock.readings = 8 := by
      refine (congrArg (·.clock.readings) now).trans ?_
      rw [second]
      decide +kernel
    rw [Engine.readings, count]
    decide +kernel
  have profile : ∀ s ∈ timing.sendings deeds, s.engine.settings.profile = true := by
    rw [sendings]
    exact List.forall_mem_cons.mpr ⟨rfl, List.forall_mem_singleton.mpr rfl⟩
  have natives : timing.natives.IsStandard := NativeTable.isStandard_standard
  obtain ⟨topLevel, statements, nativeCalls, slots, millis, between, -, slowest, -, calls, -⟩ :=
    statistics_add_up timing natives rfl deeds fits
  rw [sendings] at topLevel statements nativeCalls millis slowest
  simp only [List.map_cons, List.map_nil, Sending.slowness, recorded, recorded']
    at statements nativeCalls millis slowest
  refine ⟨natives, rfl, fits, readings, profile, topLevel, statements, nativeCalls, slots, millis,
    between ?_ 0 49 ?_ ?_, slowest, calls profile⟩
  all_goals
    rw [readings]
    decide

end Engine

end MessageMachine
