import Mathlib.Algebra.Order.BigOperators.Group.Finset
import SpscRing.Proofs.Dropping
import SpscRing.Proofs.VirtualWaits
/-!
# Timed calls that nobody helps

On a ring that nobody else drains, or fills, a timed call is rejected again each time it tries,
as a rejection changes nothing that an attempt goes by. So it goes on to its deadline, and on a
clock that is exact it comes to that to the nanosecond: the rounds of the wait are laid out in
closed form, and the number of them is the number of delays that add up to the timeout.
-/

namespace SpscRing

/-! ## Delays that add up -/

namespace Pacing

/-- How long so many sleeps take, in nanoseconds, if none of them is cut short. -/
def totalDelay (pacing : Pacing) (sleeps : Nat) : Nat :=
  ∑ k ∈ Finset.range sleeps, min (2 ^ k * pacing.interval.nanos) pacing.cap.nanos

/-- How long they take when the timeout cuts the last one short. -/
def timeSlept (pacing : Pacing) (timeout : Duration) (sleeps : Nat) : Duration :=
  .ofNanos (min (pacing.totalDelay sleeps) timeout.nanos)

variable {pacing : Pacing}

@[simp] theorem totalDelay_zero : pacing.totalDelay 0 = 0 := rfl

@[simp] theorem nanos_timeSlept (timeout : Duration) (sleeps : Nat) :
    (pacing.timeSlept timeout sleeps).nanos = min (pacing.totalDelay sleeps) timeout.nanos :=
  Nat.min_eq_left ((Nat.min_le_right _ _).trans timeout.nanos_le)

theorem totalDelay_succ (hcap : pacing.interval ≤ pacing.cap) (sleeps : Nat) :
    pacing.totalDelay (sleeps + 1) =
      pacing.totalDelay sleeps + (pacing.delayAt sleeps).nanos := by
  rw [totalDelay, Finset.sum_range_succ, nanos_delayAt hcap, totalDelay]

theorem mul_interval_le_totalDelay (hcap : pacing.interval ≤ pacing.cap) (sleeps : Nat) :
    sleeps * pacing.interval.nanos ≤ pacing.totalDelay sleeps := by
  induction sleeps with
  | zero => simp
  | succ sleeps ih =>
      have hgrown : pacing.interval.nanos ≤ 2 ^ sleeps * pacing.interval.nanos :=
        Nat.le_mul_of_pos_left _ (Nat.two_pow_pos sleeps)
      rw [Duration.le_def] at hcap
      rw [totalDelay_succ hcap, nanos_delayAt hcap, Nat.succ_mul]
      omega

theorem totalDelay_of_fixed (hfixed : pacing.cap = pacing.interval) (sleeps : Nat) :
    pacing.totalDelay sleeps = sleeps * pacing.interval.nanos := by
  have hdelay : ∀ k, min (2 ^ k * pacing.interval.nanos) pacing.cap.nanos = pacing.interval.nanos :=
    fun k => by
      rw [hfixed]
      exact Nat.min_eq_right (Nat.le_mul_of_pos_left _ (Nat.two_pow_pos k))
  simp [totalDelay, hdelay]

/-- A timeout takes no more sleeps than it takes first intervals, rounded up; and just as many
where the interval never grows. -/
theorem exists_sleeps (hvalid : pacing.Valid) (timeout : Duration) :
    ∃ sleeps, IsLeast {count | timeout.nanos ≤ pacing.totalDelay count} sleeps ∧
      sleeps ≤ timeout.nanos ⌈/⌉ pacing.interval.nanos ∧
      (pacing.cap = pacing.interval → sleeps = timeout.nanos ⌈/⌉ pacing.interval.nanos) := by
  obtain ⟨hpos, hcap⟩ := hvalid
  let most := timeout.nanos ⌈/⌉ pacing.interval.nanos
  have hmost : timeout.nanos ≤ pacing.totalDelay most := by
    have hcovers : timeout.nanos ≤ pacing.interval.nanos * most :=
      (ceilDiv_le_iff_le_mul hpos).mp (Nat.le_refl most)
    rw [Nat.mul_comm] at hcovers
    exact hcovers.trans (mul_interval_le_totalDelay hcap most)
  have hexists : ∃ count, timeout.nanos ≤ pacing.totalDelay count := ⟨most, hmost⟩
  refine ⟨Nat.find hexists, ⟨Nat.find_spec hexists, fun count => Nat.find_min' hexists⟩,
    Nat.find_min' hexists hmost, fun hfixed => ?_⟩
  apply Nat.le_antisymm (Nat.find_min' hexists hmost)
  have hreached := Nat.find_spec hexists
  rw [totalDelay_of_fixed hfixed, Nat.mul_comm] at hreached
  exact (ceilDiv_le_iff_le_mul hpos).mpr hreached

end Pacing

/-! ## Attempts in vain -/

/-- An attempt that is rejected, however often it was rejected before. -/
def Ring.Stuck {α β : Type} (ring : Ring α) (attempt : Ring α → Outcome α (Except Fault β))
    (waitingOn : Fault) (rejection : Event α) : Prop :=
  ∀ times, attempt (ring.rejected waitingOn times) =
    .fail (ring.rejected waitingOn (times + 1)) waitingOn [rejection]

theorem Ring.Stuck.first {α β : Type} {ring : Ring α}
    {attempt : Ring α → Outcome α (Except Fault β)} {waitingOn : Fault} {rejection : Event α}
    (hstuck : ring.Stuck attempt waitingOn rejection) :
    attempt ring = .fail (ring.rejected waitingOn 1) waitingOn [rejection] := by
  have hfirst := hstuck 0
  rwa [rejected_zero] at hfirst

namespace Ring

variable {α : Type} {ring : Ring α}

theorem offer_of_kept {slots : Slots α} (hslots : ring.storage = .lent slots)
    (hrange : ring.inRange = true) (hfull : ring.span.toNat + 1 = slots.cells.size) {mode : Bool}
    (hmode : mode = false ∨ slots.cells.size = 1) (item : α) :
    ring.offer item mode = .fail (ring.rejected .full 1) .full [.rejectedFull slots.capacity] := by
  have hend := ring.offered item mode
  generalize ring.offer item mode = outcome at hend ⊢
  cases hend with
  | inert hnone => exact absurd hnone (slots?_of_inRange hrange _)
  | corrupted _ hbad => simp [hrange] at hbad
  | full hlent =>
      cases hlent.symm.trans hslots
      rfl
  | replaced hlent _ _ hdrops hmany =>
      cases hlent.symm.trans hslots
      rcases hmode with hkeeps | hone
      · rw [hdrops] at hkeeps
        cases hkeeps
      · omega
  | accepted hlent _ hroom =>
      cases hlent.symm.trans hslots
      omega

theorem take_of_none (hrange : ring.inRange = true) (hnone : ring.span.toNat = 0) :
    ring.take = .fail (ring.rejected .empty 1) .empty [.rejectedEmpty] := by
  have hend := ring.taken
  generalize ring.take = outcome at hend ⊢
  cases hend with
  | inert hslots => exact absurd hslots (slots?_of_inRange hrange _)
  | corrupted _ hbad => simp [hrange] at hbad
  | empty => rfl
  | delivered _ _ hsome => omega

/-! Counting rejections moves no index, so that what holds of the ring holds of it again. -/

theorem stuck_offer {slots : Slots α} (hslots : ring.storage = .lent slots)
    (hrange : ring.inRange = true) (hfull : ring.span.toNat + 1 = slots.cells.size) {mode : Bool}
    (hmode : mode = false ∨ slots.cells.size = 1) (item : α) :
    ring.Stuck (·.offer item mode) .full (.rejectedFull slots.capacity) := by
  intro times
  have hsame : (ring.rejected .full times).storage = .lent slots := hslots
  rw [← rejected_rejected]
  exact offer_of_kept hsame hrange hfull hmode item

theorem stuck_take (hrange : ring.inRange = true) (hnone : ring.span.toNat = 0) :
    ring.Stuck take .empty .rejectedEmpty := by
  intro times
  have hsame : (ring.rejected .empty times).inRange = true := hrange
  rw [← rejected_rejected]
  exact take_of_none hsame hnone

end Ring

/-! ## Rounds of a wait -/

def Interlude.Idle {α : Type} (interlude : Interlude α) : Prop :=
  ∀ ring, (interlude ring).ring = ring ∧ (interlude ring).events = []

namespace Wait.Plan

open Surroundings

variable {α β : Type}

def timed (ring : Ring α) (attempt : Ring α → Outcome α (Except Fault β)) (waitingOn : Fault)
    (timeout start : Duration) (interludes : List (Interlude α)) :
    Plan β (List (Answer α)) (Waiting α (Surroundings α VirtualClock)) Duration :=
  called ring attempt waitingOn timeout ⟨.exact start, interludes⟩

section

variable {ring : Ring α} {attempt : Ring α → Outcome α (Except Fault β)} {waitingOn : Fault}
  {rejection : Event α} {timeout start : Duration} {interludes : List (Interlude α)}

theorem elapsed_timed (reached : Ring α) (history : List (Event α)) (time : Duration)
    (left : List (Interlude α)) :
    let plan := timed ring attempt waitingOn timeout start interludes
    (plan.clock.elapsed plan.start ⟨reached, history, ⟨.exact time, left⟩⟩).2 =
      ⟨reached, history, ⟨.exact time, left⟩⟩ := by
  show (⟨reached, history, ⟨((VirtualClock.exact time).elapsed start).2, left⟩⟩ :
    Waiting α (Surroundings α VirtualClock)) = _
  rw [VirtualClock.elapsed_exact]

theorem round_timed (hstuck : ring.Stuck attempt waitingOn rejection) (delay time : Duration)
    (times : Nat) (history : List (Event α)) {left : List (Interlude α)}
    (hidle : ∀ interlude ∈ left, Interlude.Idle interlude) :
    let length := min delay (timeout - (time - start))
    (timed ring attempt waitingOn timeout start interludes).round delay
        ⟨ring.rejected waitingOn times, history, ⟨.exact time, left⟩⟩ =
      ⟨time - start, length, (turn left (ring.rejected waitingOn times)).result,
        .error waitingOn,
        ⟨ring.rejected waitingOn (times + 1), rejection :: history,
          ⟨.exact (time + length), left.tail⟩⟩⟩ := by
  intro length
  have hturn : (turn left (ring.rejected waitingOn times)).ring = ring.rejected waitingOn times ∧
      (turn left (ring.rejected waitingOn times)).events = [] := by
    cases left with
    | nil => exact ⟨rfl, rfl⟩
    | cons interlude later => exact hidle interlude List.mem_cons_self _
  have hround : (timed ring attempt waitingOn timeout start interludes).round delay
        ⟨ring.rejected waitingOn times, history, ⟨.exact time, left⟩⟩ =
      let peers := turn left (ring.rejected waitingOn times)
      let tried := attempt peers.ring
      let read := (VirtualClock.exact time).elapsed start
      let length := min delay (timeout - read.1)
      ⟨read.1, length, peers.result, tried.result,
        ⟨tried.ring, tried.events.reverse ++ (peers.events.reverse ++ history),
          ⟨read.2.sleep length, left.tail⟩⟩⟩ := by
    cases left with
    | nil | cons => rfl
  rw [hround]
  simp only [VirtualClock.elapsed_exact, VirtualClock.sleep_exact]
  rw [hturn.1, hturn.2, hstuck times]
  rfl

section

variable (hstuck : ring.Stuck attempt waitingOn rejection) (hvalid : ring.pacing.Valid)
  (hreach : start.nanos + timeout.nanos ≤ Duration.maxNanos)
  (hidle : ∀ interlude ∈ interludes, Interlude.Idle interlude)

include hreach in
theorem add_timeSlept_sub (place : Nat) :
    start + ring.pacing.timeSlept timeout place - start = ring.pacing.timeSlept timeout place := by
  ext
  simp only [Duration.nanos_sub, Duration.nanos_add, Pacing.nanos_timeSlept]
  omega

include hstuck hvalid hreach hidle

/-- The rounds of a wait in closed form. -/
theorem worldAt_timed (place : Nat) :
    (timed ring attempt waitingOn timeout start interludes).worldAt place =
      ⟨ring.rejected waitingOn (place + 1), List.replicate (place + 1) rejection,
        ⟨.exact (start + ring.pacing.timeSlept timeout place), interludes.drop place⟩⟩ := by
  induction place with
  | zero =>
      have hstart : start + ring.pacing.timeSlept timeout 0 = start := by
        ext
        simp [start.nanos_le]
      rw [hstart]
      show (⟨(attempt ring).ring, (attempt ring).events.reverse ++ [], ⟨.exact start, interludes⟩⟩ :
        Waiting α (Surroundings α VirtualClock)) = _
      rw [hstuck.first]
      rfl
  | succ place ih =>
      have hleft : ∀ interlude ∈ interludes.drop place, Interlude.Idle interlude :=
        fun interlude hmem => hidle interlude (List.mem_of_mem_drop hmem)
      have hlater : start + ring.pacing.timeSlept timeout place +
            min (ring.pacing.delayAt place) (timeout - ring.pacing.timeSlept timeout place) =
          start + ring.pacing.timeSlept timeout (place + 1) := by
        have htotal := Pacing.totalDelay_succ hvalid.2 place
        ext
        simp only [Duration.nanos_add, Duration.nanos_min, Duration.nanos_sub,
          Pacing.nanos_timeSlept, htotal]
        omega
      rw [worldAt, ih, round_timed hstuck _ _ _ _ hleft, add_timeSlept_sub hreach, List.tail_drop]
      dsimp only
      rw [← hlater]
      rfl

theorem roundAt_timed (place : Nat) :
    let round := (timed ring attempt waitingOn timeout start interludes).roundAt place
    round.reading = ring.pacing.timeSlept timeout place ∧ round.outcome = .error waitingOn := by
  have hleft : ∀ interlude ∈ interludes.drop place, Interlude.Idle interlude :=
    fun interlude hmem => hidle interlude (List.mem_of_mem_drop hmem)
  rw [roundAt, worldAt_timed hstuck hvalid hreach hidle, round_timed hstuck _ _ _ _ hleft]
  exact ⟨add_timeSlept_sub hreach place, rfl⟩

theorem notMem_settling_timed (place : Nat) :
    place ∉ (timed ring attempt waitingOn timeout start interludes).settling := by
  refine not_not.mpr ?_
  cases place with
  | zero => exact congrArg Outcome.result hstuck.first
  | succ place => exact (roundAt_timed hstuck hvalid hreach hidle place).2

theorem mem_late_timed {place : Nat} :
    place ∈ (timed ring attempt waitingOn timeout start interludes).late ↔
      timeout.nanos ≤ ring.pacing.totalDelay place := by
  have hreading : ((timed ring attempt waitingOn timeout start interludes).reading place).nanos =
      min (ring.pacing.totalDelay place) timeout.nanos := by
    rw [reading, (roundAt_timed hstuck hvalid hreach hidle place).1, Pacing.nanos_timeSlept]
  show timeout.nanos ≤
    ((timed ring attempt waitingOn timeout start interludes).reading place).nanos ↔ _
  omega

theorem run_timed (hwaits : 0 < timeout.nanos) {sleeps rounds : Nat}
    (hleast : IsLeast {count | timeout.nanos ≤ ring.pacing.totalDelay count} sleeps)
    (hrounds : sleeps < rounds) :
    let plan := timed ring attempt waitingOn timeout start interludes
    plan.run rounds =
      ⟨.gaveUp, plan.traceTo sleeps ++ [.elapsed (plan.reading sleeps)],
        ⟨ring.rejected waitingOn (sleeps + 1), List.replicate (sleeps + 1) rejection,
          ⟨.exact (start + timeout), interludes.drop sleeps⟩⟩⟩ := by
  intro plan
  have hpasses : ∀ earlier < sleeps, plan.Passes earlier := fun earlier hlt =>
    { inTime := fun hlate =>
        Nat.not_le.mpr hlt (hleast.2 ((mem_late_timed hstuck hvalid hreach hidle).mp hlate))
      fails := notMem_settling_timed hstuck hvalid hreach hidle _ }
  have hlate : sleeps ∈ plan.late := (mem_late_timed hstuck hvalid hreach hidle).mpr hleast.1
  have hall : ring.pacing.timeSlept timeout sleeps = timeout := by
    ext
    rw [Pacing.nanos_timeSlept]
    exact Nat.min_eq_right hleast.1
  have hnonzero : plan.timeout.isZero = false := by
    rw [← Bool.not_eq_true, Duration.isZero_iff]
    exact Nat.ne_of_gt hwaits
  rw [run_of_late (notMem_settling_timed hstuck hvalid hreach hidle 0) hnonzero hvalid hpasses
    hlate hrounds, worldAt_timed hstuck hvalid hreach hidle, hall, elapsed_timed]

end

end

end Wait.Plan

/-! ## Calls in vain -/

/-- A timed call that went on to its deadline: the ring as it was but for what was counted, how
many times it slept, and what it left in the records. -/
structure TimesOut {α β : Type} (counted : Ring α) (operation : Operation) (waitingOn : Fault)
    (rejection : LogLine) (timeout deadline : Duration) (line : UInt32) (sleeps : Nat)
    (wait : Wait β (List (Answer α)) (Waiting α (Surroundings α VirtualClock))) : Prop where
  result : wait.verdict.result? = some (.error .timedOut)
  slept : wait.sleeps.length = sleeps
  clock : wait.world.clock.clock = .exact deadline
  ring : wait.world.ring = { counted with latch := .ofFailure operation .timedOut line }
  failure : wait.world.ring.lastFailure = ⟨some .timedOut, some operation, some .timeout, line⟩
  log : Build.full.log wait.world.events =
    List.replicate (sleeps + 1) rejection ++ [.timedOut timeout waitingOn]

section

open Surroundings

variable {α β : Type} {ring : Ring α} {timeout start : Duration} {interludes : List (Interlude α)}
  {sleeps rounds : Nat}

section

variable (hvalid : ring.pacing.Valid)
  (hreach : start.nanos + timeout.nanos ≤ Duration.maxNanos)
  (hidle : ∀ interlude ∈ interludes, Interlude.Idle interlude) (hwaits : 0 < timeout.nanos)
  (hleast : IsLeast {count | timeout.nanos ≤ ring.pacing.totalDelay count} sleeps)
  (hrounds : sleeps < rounds)

include hvalid hreach hidle hwaits hleast hrounds

theorem timesOut_of {attempt : Ring α → Outcome α (Except Fault β)} {waitingOn : Fault}
    {rejection : Event α} {written : LogLine} (hstuck : ring.Stuck attempt waitingOn rejection)
    (hwritten : rejection.logLine? = some written) (operation : Operation) (line : UInt32) :
    TimesOut (ring.rejected waitingOn (sleeps + 1)) operation waitingOn written timeout
      (start + timeout) line sleeps (Ring.concludeWait operation waitingOn line timeout
        (Wait.run (clockwork VirtualClock.timepiece) ring.pacing timeout waitingOn
          (Waiting.perform attempt) rounds ⟨ring, [], ⟨.exact start, interludes⟩⟩)) := by
  let plan := Wait.Plan.timed ring attempt waitingOn timeout start interludes
  have hrun := Wait.Plan.run_timed hstuck hvalid hreach hidle hwaits hleast hrounds
  show TimesOut _ _ _ _ _ _ _ _
    (Ring.concludeWait operation waitingOn line timeout (plan.run rounds))
  rw [hrun]
  constructor
  case result | clock | ring => rfl
  case slept =>
    have hsleeps : (plan.traceTo sleeps ++ [Beat.elapsed (plan.reading sleeps)]).filterMap
        Beat.sleep? = (List.range sleeps).map fun earlier => (plan.roundAt earlier).length := by
      rw [List.filterMap_append, Wait.Plan.sleeps_traceTo]
      exact List.append_nil _
    refine (congrArg List.length hsleeps).trans ?_
    rw [List.length_map, List.length_range]
  case failure => exact FaultLatch.report_ofFailure operation .timedOut line
  case log =>
    simp [Ring.concludeWait, Build.log, Build.written, logLines, Waiting.events, Waiting.giveUp,
      Waiting.fail, List.filterMap_replicate_of_some hwritten, Event.logLine?]

end

/-- Timed calls that nobody helps, on an exact clock and with any pacing that can be installed. They
time out at the deadline itself, after the least number of sleeps for which the delays add up to
the timeout; which, where the delay never grows, is the number of intervals that the timeout
takes. Each attempt is rejected, and there is one more of them than there are sleeps: so many
rejections are counted and logged, and after them the timeout is. Nothing else has changed. -/
theorem stuck_calls_time_out {α : Type} (ring : Ring α) (hrange : ring.inRange = true)
    {counters : Counters} (hrecorder : ring.recorder = .on counters) (hvalid : ring.pacing.Valid)
    {timeout start : Duration} (hwaits : 0 < timeout.nanos)
    (hreach : start.nanos + timeout.nanos ≤ Duration.maxNanos) {interludes : List (Interlude α)}
    (hidle : ∀ interlude ∈ interludes, Interlude.Idle interlude) (line : UInt32) :
    let surroundings : Surroundings α VirtualClock := ⟨.exact start, interludes⟩
    let clock := clockwork VirtualClock.timepiece
    ∃ sleeps, IsLeast {count | timeout.nanos ≤ ring.pacing.totalDelay count} sleeps ∧
      (ring.pacing.cap = ring.pacing.interval →
        sleeps = timeout.nanos ⌈/⌉ ring.pacing.interval.nanos) ∧
      sleeps < surroundings.rounds ring.pacing timeout ∧
      ∀ rounds, sleeps < rounds →
        (ring.overwrite = false ∨ ring.capacity = 1 →
          ring.occupancy.toNat + 1 = ring.capacity.toNat → ∀ item,
            let overflows := counters.overflows + .ofNat (sleeps + 1)
            TimesOut { ring with recorder := .on { counters with overflows } } .insertWithin .full
              (.rejectedFull ring.capacity) timeout (start + timeout) line sleeps
              (ring.insertWithin item timeout clock rounds surroundings line)) ∧
        (ring.occupancy = 0 →
          let underflows := counters.underflows + .ofNat (sleeps + 1)
          TimesOut { ring with recorder := .on { counters with underflows } } .removeWithin .empty
            .rejectedEmpty timeout (start + timeout) line sleeps
            (ring.removeWithin timeout clock rounds surroundings line)) := by
  intro surroundings clock
  obtain ⟨sleeps, hleast, hmost, hfixed⟩ := Pacing.exists_sleeps hvalid timeout
  have hcounted : ∀ fault, ring.rejected fault (sleeps + 1) =
      { ring with recorder := .on (counters.countRejected fault (sleeps + 1)) } := fun fault => by
    rw [Ring.rejected, Ring.count, hrecorder]
    rfl
  refine ⟨sleeps, hleast, hfixed, ?enough, fun rounds hrounds => ⟨?insert, ?remove⟩⟩
  case enough =>
    have hwithin : VirtualClock.sleepsWithin ring.pacing timeout =
        timeout.nanos ⌈/⌉ ring.pacing.interval.nanos := rfl
    show sleeps < 0 + interludes.length + VirtualClock.sleepsWithin ring.pacing timeout + 2
    omega
  case insert =>
    intro hkeeps hfull item overflows
    obtain ⟨slots, hslots⟩ := Ring.exists_slots_of_inRange hrange
    have hsize := Ring.toNat_capacity_of_slots hslots
    have hspan : ring.span.toNat + 1 = slots.cells.size := by
      rw [← Ring.occupancy_of_inRange hrange, hfull, hsize]
    have hmode : ring.overwrite = false ∨ slots.cells.size = 1 := hkeeps.imp_right fun hone => by
      rw [← hsize, hone]
      rfl
    have hstuck := Ring.stuck_offer hslots hrange hspan hmode item
    have hcapacity : slots.capacity = ring.capacity := by
      rw [Ring.capacity, hslots]
      rfl
    have htimesOut :=
      timesOut_of hvalid hreach hidle hwaits hleast hrounds hstuck rfl .insertWithin line
    rw [hcounted, hcapacity] at htimesOut
    exact htimesOut
  case remove =>
    intro hempty underflows
    have hnone : ring.span.toNat = 0 := by
      rw [← Ring.occupancy_of_inRange hrange, hempty]
      rfl
    have hstuck := Ring.stuck_take hrange hnone
    have htimesOut :=
      timesOut_of hvalid hreach hidle hwaits hleast hrounds hstuck rfl .removeWithin line
    rw [hcounted] at htimesOut
    exact htimesOut

/-- Two slots with one item in them, and delays of two, four and then five nanoseconds. -/
def Ring.patient : Ring Nat := { brimful with pacing := .backoff (.ofNanos 2) (.ofNanos 5) }

def Ring.exhausted : Ring Nat := { patient with consumer := 1 }

open SpscRing.Ring in
/-- The fourth sleep is cut short, from five nanoseconds to one. -/
theorem stuck_calls_time_out_patient :
    let interludes : List (Interlude Nat) := [SharedCall.runAll [.query .isFull]]
    let clock := clockwork VirtualClock.timepiece
    patient.inRange = true ∧ exhausted.inRange = true ∧
      patient.recorder = .on .zero ∧ exhausted.recorder = .on .zero ∧
      patient.pacing.Valid ∧ exhausted.pacing.Valid ∧ 0 < (Duration.ofNanos 12).nanos ∧
      (Duration.ofNanos 7).nanos + (Duration.ofNanos 12).nanos ≤ Duration.maxNanos ∧
      (∀ interlude ∈ interludes, Interlude.Idle interlude) ∧
      IsLeast {count | 12 ≤ patient.pacing.totalDelay count} 4 ∧
      patient.overwrite = false ∧
      patient.occupancy.toNat + 1 = patient.capacity.toNat ∧ exhausted.occupancy = 0 ∧
      TimesOut { patient with recorder := .on ⟨0, 0, 0, 5, 0⟩ } .insertWithin .full
        (.rejectedFull 2) (.ofNanos 12) (.ofNanos 19) 6 4
        (patient.insertWithin 8 (.ofNanos 12) clock 9 ⟨.exact (.ofNanos 7), interludes⟩ 6) ∧
      TimesOut { exhausted with recorder := .on ⟨0, 0, 0, 0, 5⟩ } .removeWithin .empty
        .rejectedEmpty (.ofNanos 12) (.ofNanos 19) 6 4
        (exhausted.removeWithin (.ofNanos 12) clock 9 ⟨.exact (.ofNanos 7), interludes⟩ 6) := by
  intro interludes clock
  have hvalid : patient.pacing.Valid := by decide
  have hwaits : 0 < (Duration.ofNanos 12).nanos := by decide
  have hreach : (Duration.ofNanos 7).nanos + (Duration.ofNanos 12).nanos ≤ Duration.maxNanos := by
    decide
  have hidle : ∀ interlude ∈ interludes, Interlude.Idle interlude := by
    intro interlude hmem ring
    rw [List.mem_singleton.mp hmem]
    exact ⟨rfl, rfl⟩
  have hleast : IsLeast {count | 12 ≤ patient.pacing.totalDelay count} 4 := by
    have hbefore : ∀ count < 4, patient.pacing.totalDelay count < 12 := by decide
    exact ⟨by decide, fun count hcount =>
      Nat.le_of_not_lt fun hlt => Nat.not_le.mpr (hbefore count hlt) hcount⟩
  obtain ⟨sleeps, hleastFull, -, -, hfull⟩ :=
    stuck_calls_time_out patient rfl rfl hvalid hwaits hreach hidle 6
  obtain ⟨others, hleastEmpty, -, -, hempty⟩ :=
    stuck_calls_time_out exhausted rfl rfl hvalid hwaits hreach hidle 6
  obtain rfl : sleeps = 4 := hleastFull.unique hleast
  obtain rfl : others = 4 := hleastEmpty.unique hleast
  exact ⟨rfl, rfl, rfl, rfl, hvalid, hvalid, hwaits, hreach, hidle, hleast, rfl, rfl, rfl,
    (hfull 9 (by decide)).1 (.inl rfl) rfl 8, (hempty 9 (by decide)).2 rfl⟩

end

end SpscRing
