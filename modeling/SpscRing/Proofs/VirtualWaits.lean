import SpscRing.Proofs.Progress
import SpscRing.Proofs.Rejection
/-!
# Waits on virtual clocks

A virtual clock can be slow to get anywhere: its first readings may be scripted, and its time
does not go beyond the largest duration. So a wait on it need not end. If it ends, it does so
within a number of rounds that is known beforehand. Past the script a reading is a difference of
two times. A timeout longer than any such difference is never reached, and towards a shorter one
each round makes an interval of the pacing, at least.
-/

namespace SpscRing

namespace Wait.Plan

/-! ## Waits that end -/

section

variable {β ρ σ ι : Type} {plan : Plan β ρ σ ι} {rounds other : Nat}

/-- A wait does not end just when it passes all the rounds that it is allowed. -/
theorem run_unsettled_iff :
    (plan.run rounds).verdict = .unsettled ↔
      0 ∉ plan.settling ∧ plan.timeout.isZero = false ∧ plan.pacing.Valid ∧
        ∀ earlier < rounds, plan.Passes earlier := by
  constructor
  · intro hunsettled
    by_cases hends : 0 ∈ plan.settling ∨ plan.timeout.isZero = true
    · rw [run_of_atOnce rounds hends] at hunsettled
      cases hunsettled
    rw [not_or, Bool.not_eq_true] at hends
    obtain ⟨hfails, hwaits⟩ := hends
    by_cases hvalid : plan.pacing.Valid
    · refine ⟨hfails, hwaits, hvalid, ?_⟩
      rcases plan.passes_or_stops rounds with hall | ⟨place, hlt, hbefore, hstops⟩
      · exact hall
      by_cases hlate : place ∈ plan.late
      · rw [run_of_late hfails hwaits hvalid hbefore hlate hlt] at hunsettled
        cases hunsettled
      · have hsettles : place + 1 ∈ plan.settling :=
          Decidable.not_not.mp fun hfails => hstops ⟨hlate, hfails⟩
        rw [run_of_settling hfails hwaits hvalid hbefore hlate hsettles hlt] at hunsettled
        cases hunsettled
    · rw [run_of_badPacing rounds hfails hwaits hvalid] at hunsettled
      cases hunsettled
  · rintro ⟨hfails, hwaits, hvalid, hpasses⟩
    rw [run_of_passesAll hfails hwaits hvalid hpasses]

theorem run_add_of_ended (hended : (plan.run rounds).verdict ≠ .unsettled) (more : Nat) :
    plan.run (rounds + more) = plan.run rounds := by
  obtain ⟨place, hstops, -, -⟩ := plan.exists_ended rounds
  generalize plan.run rounds = wait at hstops hended ⊢
  cases hstops with
  | settled hlasts | gaveUp _ _ hlasts => exact hlasts more
  | unsettled => exact absurd rfl hended

/-- However many rounds a wait is allowed, it ends in one way at most. -/
theorem run_eq_run (hended : (plan.run rounds).verdict ≠ .unsettled)
    (halso : (plan.run other).verdict ≠ .unsettled) : plan.run rounds = plan.run other := by
  rcases Nat.le_total rounds other with hle | hle
  · obtain ⟨more, rfl⟩ := Nat.exists_eq_add_of_le hle
    exact (run_add_of_ended hended more).symm
  · obtain ⟨more, rfl⟩ := Nat.exists_eq_add_of_le hle
    exact run_add_of_ended halso more

end

/-! ## Times and readings -/

section

variable {β ρ σ : Type}

/-- A virtual clock stands in the world of a wait, and only the wait looks at it or sleeps. -/
structure GoesBy (plan : Plan β ρ σ Duration) (clockOf : σ → VirtualClock) : Prop where
  now : ∀ world, Prod.map id clockOf (plan.clock.now world) =
    VirtualClock.timepiece.now (clockOf world)
  elapsed : ∀ since world, Prod.map id clockOf (plan.clock.elapsed since world) =
    VirtualClock.timepiece.elapsed since (clockOf world)
  sleep : ∀ length world, clockOf (plan.clock.sleep length world).2 =
    (VirtualClock.timepiece.sleep length (clockOf world)).2
  attempt : ∀ world, clockOf (plan.attempt world).2 = clockOf world

def stamp (plan : Plan β ρ σ Duration) (clockOf : σ → VirtualClock) (place : Nat) : Duration :=
  ((clockOf (plan.worldAt place)).elapsed plan.start).2.time

namespace GoesBy

variable {plan : Plan β ρ σ Duration} {clockOf : σ → VirtualClock} (hgoes : plan.GoesBy clockOf)

include hgoes

theorem start_eq : plan.start = (clockOf plan.world).time :=
  congrArg Prod.fst (hgoes.now plan.world)

theorem worldAt_zero : clockOf (plan.worldAt 0) = clockOf plan.world :=
  (hgoes.attempt _).trans (congrArg Prod.snd (hgoes.now plan.world))

theorem worldAt_succ (place : Nat) :
    clockOf (plan.worldAt (place + 1)) =
      ((clockOf (plan.worldAt place)).elapsed plan.start).2.sleep (plan.roundAt place).length := by
  have hread : clockOf (plan.clock.elapsed plan.start (plan.worldAt place)).2 =
      ((clockOf (plan.worldAt place)).elapsed plan.start).2 :=
    congrArg Prod.snd (hgoes.elapsed plan.start (plan.worldAt place))
  rw [← hread]
  exact (hgoes.attempt _).trans (hgoes.sleep _ _)

theorem readings_worldAt (place : Nat) :
    (clockOf (plan.worldAt place)).readings = (clockOf plan.world).readings.drop place := by
  induction place with
  | zero => rw [hgoes.worldAt_zero, List.drop_zero]
  | succ place ih =>
      rw [hgoes.worldAt_succ]
      show ((clockOf (plan.worldAt place)).elapsed plan.start).2.readings = _
      rw [VirtualClock.readings_elapsed, ih, List.tail_drop]

theorem le_stamp_succ (place : Nat) :
    min ((plan.stamp clockOf place).nanos + (plan.roundAt place).length.nanos)
        Duration.maxNanos ≤ (plan.stamp clockOf (place + 1)).nanos := by
  simp only [stamp, VirtualClock.time_elapsed, hgoes.worldAt_succ, VirtualClock.sleep,
    Duration.nanos_add]
  omega

theorem time_le_stamp (place : Nat) :
    (clockOf plan.world).time.nanos ≤ (plan.stamp clockOf place).nanos := by
  have htime := (clockOf plan.world).time.nanos_le
  induction place with
  | zero =>
      rw [stamp, VirtualClock.time_elapsed, hgoes.worldAt_zero, Duration.nanos_add]
      omega
  | succ place ih =>
      have hlater := hgoes.le_stamp_succ place
      omega

/-- Past the script a reading tells how far the time has gone on since the start. -/
theorem nanos_reading {place : Nat} (hmeasured : (clockOf plan.world).readings.length ≤ place) :
    (plan.reading place).nanos =
      (plan.stamp clockOf place).nanos - (clockOf plan.world).time.nanos := by
  have hreadings : (clockOf (plan.worldAt place)).readings = [] := by
    rw [hgoes.readings_worldAt, List.drop_eq_nil_iff]
    exact hmeasured
  have hread : plan.reading place = ((clockOf (plan.worldAt place)).elapsed plan.start).1 :=
    congrArg Prod.fst (hgoes.elapsed plan.start (plan.worldAt place))
  rw [hread, VirtualClock.elapsed_of_readings hreadings, Duration.nanos_sub]
  show (plan.stamp clockOf place).nanos - plan.start.nanos = _
  rw [hgoes.start_eq]

/-! ## The deadline -/

/-- Where the time can get to the deadline, a round past the script makes an interval of the
way. -/
theorem mul_interval_le_reading (hvalid : plan.pacing.Valid)
    (hreach : (clockOf plan.world).time.nanos + plan.timeout.nanos ≤ Duration.maxNanos)
    (made : Nat) :
    min (made * plan.pacing.interval.nanos) plan.timeout.nanos ≤
      (plan.reading ((clockOf plan.world).readings.length + made)).nanos := by
  induction made with
  | zero => simp
  | succ made ih =>
      have hreading := hgoes.nanos_reading (Nat.le_add_right _ made)
      have hlater := hgoes.nanos_reading (Nat.le_add_right _ (made + 1))
      rw [← Nat.add_assoc] at hlater ⊢
      generalize (clockOf plan.world).readings.length + made = place at ih hreading hlater ⊢
      have hgone := hgoes.le_stamp_succ place
      have hstart := hgoes.time_le_stamp place
      have hdelay := interval_le_delayAt hvalid place
      rw [nanos_length] at hgone
      rw [Nat.succ_mul, hlater]
      omega

theorem mem_late (hvalid : plan.pacing.Valid)
    (hreach : (clockOf plan.world).time.nanos + plan.timeout.nanos ≤ Duration.maxNanos) :
    (clockOf plan.world).readings.length +
      VirtualClock.sleepsWithin plan.pacing plan.timeout ∈ plan.late := by
  have hmade := hgoes.mul_interval_le_reading hvalid hreach
    (VirtualClock.sleepsWithin plan.pacing plan.timeout)
  have hcovers : plan.timeout.nanos ≤
      plan.pacing.interval.nanos * VirtualClock.sleepsWithin plan.pacing plan.timeout :=
    (ceilDiv_le_iff_le_mul hvalid.1).mp (Nat.le_refl _)
  rw [Nat.mul_comm] at hcovers
  show plan.timeout.nanos ≤ (plan.reading _).nanos
  omega

/-- Where the time cannot get to the deadline, no reading past the script comes too late. -/
theorem notMem_late
    (hshort : Duration.maxNanos < (clockOf plan.world).time.nanos + plan.timeout.nanos)
    {place : Nat} (hmeasured : (clockOf plan.world).readings.length ≤ place) :
    place ∉ plan.late := by
  intro hlate
  have hlate : plan.timeout.nanos ≤ (plan.reading place).nanos := hlate
  have hmost := (plan.stamp clockOf place).nanos_le
  have htime := (clockOf plan.world).time.nanos_le
  rw [hgoes.nanos_reading hmeasured] at hlate
  omega

/-- If a wait on a virtual clock ends at all, it ends in the same way within the rounds of its
clock. From some attempt on, one rejection has to be followed by another. -/
theorem run_rounds_eq {scripted : Nat}
    (hrepeats : ∀ place, scripted ≤ place → place ∉ plan.settling → place + 1 ∉ plan.settling)
    {rounds : Nat} (hended : (plan.run rounds).verdict ≠ .unsettled) :
    plan.run ((clockOf plan.world).rounds plan.pacing plan.timeout scripted) =
      plan.run rounds := by
  let enough := (clockOf plan.world).rounds plan.pacing plan.timeout scripted
  have henough : enough = (clockOf plan.world).readings.length + scripted +
    VirtualClock.sleepsWithin plan.pacing plan.timeout + 2 := rfl
  refine run_eq_run (fun hunsettled => hended ?_) hended
  obtain ⟨hfails, hwaits, hvalid, hpasses⟩ := run_unsettled_iff.mp hunsettled
  have hshort : Duration.maxNanos < (clockOf plan.world).time.nanos + plan.timeout.nanos := by
    refine Nat.lt_of_not_le fun hreach => ?_
    exact (hpasses _ (by omega)).inTime (hgoes.mem_late hvalid hreach)
  have hrejected : ∀ place, scripted ≤ place → place ∉ plan.settling := by
    intro place hplace
    induction place, hplace using Nat.le_induction with
    | base =>
        cases scripted with
        | zero => exact hfails
        | succ last => exact (hpasses last (by omega)).fails
    | succ place hplace ih => exact hrepeats place hplace ih
  -- The rounds allowed lead past both scripts, and there nothing ends the wait.
  refine run_unsettled_iff.mpr ⟨hfails, hwaits, hvalid, fun place _ => ?_⟩
  by_cases hlt : place < enough
  · exact hpasses place hlt
  · exact ⟨hgoes.notMem_late hshort (by omega), hrejected _ (by omega)⟩

end GoesBy

end

end Wait.Plan

/-! ## Rehearsals -/

namespace Rehearsal

variable {β : Type} (rehearsal : Rehearsal β) (pacing : Pacing) (timeout : Duration)
  (retryOn : Fault)

theorem goesBy_plan : (rehearsal.plan pacing timeout retryOn).GoesBy Rehearsal.clock where
  now _ := rfl
  elapsed _ _ := rfl
  sleep _ _ := rfl
  attempt _ := rfl

theorem length_later_worldAt (place : Nat) :
    ((rehearsal.plan pacing timeout retryOn).worldAt place).outcomes.later.length =
      rehearsal.outcomes.later.length - (place + 1) := by
  induction place with
  | zero =>
      show rehearsal.outcomes.advance.2.later.length = _
      rw [Script.later_advance, List.length_tail]
  | succ place ih =>
      show ((rehearsal.plan pacing timeout retryOn).worldAt
        place).outcomes.advance.2.later.length = _
      rw [Script.later_advance, List.length_tail, ih]
      omega

theorem outcome_succ {place : Nat} (hlast : rehearsal.outcomes.later.length ≤ place) :
    (rehearsal.plan pacing timeout retryOn).outcome (place + 1) =
      (rehearsal.plan pacing timeout retryOn).outcome place := by
  cases place with
  | zero => exact Script.advance_advance (List.length_eq_zero_iff.mp (Nat.le_zero.mp hlast))
  | succ place =>
      have hlater := rehearsal.length_later_worldAt pacing timeout retryOn place
      rw [Nat.sub_eq_zero_of_le hlast, List.length_eq_zero_iff] at hlater
      exact Script.advance_advance hlater

/-- A rehearsal runs for as many rounds as its wait can need. -/
theorem run_eq {rounds : Nat}
    (hended : ((rehearsal.plan pacing timeout retryOn).run rounds).verdict ≠ .unsettled) :
    rehearsal.run pacing timeout retryOn =
      (rehearsal.plan pacing timeout retryOn).run rounds := by
  refine (rehearsal.goesBy_plan pacing timeout retryOn).run_rounds_eq ?_ hended
  intro place hplace hfails
  show ¬_ ≠ _
  rw [rehearsal.outcome_succ pacing timeout retryOn hplace]
  exact hfails

end Rehearsal

/-! ## Calls -/

open Surroundings

section

variable {α β : Type}

/-- A timed call as a wait on a virtual clock, with what others are to do. -/
def Wait.Plan.called (ring : Ring α) (attempt : Ring α → Outcome α (Except Fault β))
    (waitingOn : Fault) (timeout : Duration) (surroundings : Surroundings α VirtualClock) :
    Plan β (List (Answer α)) (Waiting α (Surroundings α VirtualClock)) Duration where
  clock := clockwork VirtualClock.timepiece
  pacing := ring.pacing
  timeout := timeout
  retryOn := waitingOn
  attempt := Waiting.perform attempt
  world := ⟨ring, [], surroundings⟩

namespace Wait.Plan

variable (ring : Ring α) (attempt : Ring α → Outcome α (Except Fault β)) (waitingOn : Fault)
  (timeout : Duration) (surroundings : Surroundings α VirtualClock)

theorem goesBy_called :
    (called ring attempt waitingOn timeout surroundings).GoesBy fun world => world.clock.clock where
  now := by
    rintro ⟨_, _, _, _⟩
    rfl
  elapsed := by
    rintro since ⟨_, _, _, _⟩
    rfl
  sleep := by
    rintro length ⟨_, _, _, _ | _⟩ <;> rfl
  attempt := by
    rintro ⟨_, _, _⟩
    rfl

theorem round_called (delay : Duration) (world : Waiting α (Surroundings α VirtualClock)) :
    let round := (called ring attempt waitingOn timeout surroundings).round delay world
    let peers := turn world.clock.interludes world.ring
    round.outcome = (attempt peers.ring).result ∧
      round.world.ring = (attempt peers.ring).ring ∧
      round.world.clock.interludes = world.clock.interludes.tail := by
  obtain ⟨reached, history, clock, _ | ⟨interlude, later⟩⟩ := world
  · exact ⟨rfl, rfl, rfl⟩
  · exact ⟨rfl, rfl, rfl⟩

theorem interludes_worldAt (place : Nat) :
    ((called ring attempt waitingOn timeout surroundings).worldAt place).clock.interludes =
      surroundings.interludes.drop place := by
  induction place with
  | zero => rfl
  | succ place ih =>
      obtain ⟨-, -, hleft⟩ := round_called ring attempt waitingOn timeout surroundings
        (ring.pacing.delayAt place) (worldAt _ place)
      refine hleft.trans ?_
      rw [ih, List.tail_drop]

theorem exists_attempted (place : Nat) :
    let plan := called ring attempt waitingOn timeout surroundings
    ∃ tried, plan.outcome place = (attempt tried).result ∧
      (plan.worldAt place).ring = (attempt tried).ring := by
  intro plan
  cases place with
  | zero => exact ⟨ring, rfl, rfl⟩
  | succ place =>
      obtain ⟨houtcome, hring, -⟩ := round_called ring attempt waitingOn timeout surroundings
        (ring.pacing.delayAt place) (plan.worldAt place)
      exact ⟨_, houtcome, hring⟩

variable {attempt waitingOn}

theorem notMem_settling_succ (hattempt : Repeatable attempt waitingOn) {place : Nat}
    (hdone : surroundings.interludes.length ≤ place)
    (hfails : place ∉ (called ring attempt waitingOn timeout surroundings).settling) :
    place + 1 ∉ (called ring attempt waitingOn timeout surroundings).settling := by
  let plan := called ring attempt waitingOn timeout surroundings
  obtain ⟨tried, houtcome, hring⟩ :=
    exists_attempted ring attempt waitingOn timeout surroundings place
  have hrejected : (attempt tried).result = .error waitingOn :=
    houtcome.symm.trans (not_not.mp hfails)
  have hleft : (plan.worldAt place).clock.interludes = [] := by
    rw [interludes_worldAt, List.drop_eq_nil_iff]
    exact hdone
  obtain ⟨hnext, -, -⟩ := round_called ring attempt waitingOn timeout surroundings
    (ring.pacing.delayAt place) (plan.worldAt place)
  rw [hleft] at hnext
  have hagain : plan.outcome (place + 1) = (attempt (plan.worldAt place).ring).result := hnext
  refine not_not.mpr (hagain.trans ?_)
  rw [hring, hattempt.rejected_first hrejected]
  exact (hattempt.rejected_again hrejected 1).1

theorem run_called_eq (hattempt : Repeatable attempt waitingOn) {rounds : Nat}
    (hended : ((called ring attempt waitingOn timeout surroundings).run rounds).verdict ≠
      .unsettled) :
    (called ring attempt waitingOn timeout surroundings).run
        (surroundings.rounds ring.pacing timeout) =
      (called ring attempt waitingOn timeout surroundings).run rounds :=
  (goesBy_called ring attempt waitingOn timeout surroundings).run_rounds_eq
    (fun _ => notMem_settling_succ ring timeout surroundings hattempt) hended

end Wait.Plan

/-! A timed call gives what its wait comes to, in however many rounds. -/

namespace Ring

variable (timeout : Duration) (surroundings : Surroundings α VirtualClock) (line : UInt32)
  (ring : Ring α) {rounds : Nat}

theorem concludeWait_called_eq (operation : Operation) {waitingOn : Fault}
    {attempt : Ring α → Outcome α (Except Fault β)} (hattempt : Repeatable attempt waitingOn)
    (hended : (concludeWait operation waitingOn line timeout
      ((Wait.Plan.called ring attempt waitingOn timeout surroundings).run rounds)).verdict ≠
        .unsettled) :
    concludeWait operation waitingOn line timeout
        ((Wait.Plan.called ring attempt waitingOn timeout surroundings).run
          (surroundings.rounds ring.pacing timeout)) =
      concludeWait operation waitingOn line timeout
        ((Wait.Plan.called ring attempt waitingOn timeout surroundings).run rounds) := by
  obtain ⟨hverdict, -⟩ := concludeWait_concluded operation waitingOn line timeout
    ((Wait.Plan.called ring attempt waitingOn timeout surroundings).run rounds)
  rw [hverdict] at hended
  rw [Wait.Plan.run_called_eq ring timeout surroundings hattempt hended]

theorem waitToInsert_eq (item : α)
    (hended : (ring.insertWithin item timeout (clockwork VirtualClock.timepiece) rounds
      surroundings line).verdict ≠ .unsettled) :
    waitToInsert item timeout surroundings line ring =
      (ring.insertWithin item timeout (clockwork VirtualClock.timepiece) rounds surroundings
        line).toOutcome .waitedInsert :=
  congrArg (Wait.toOutcome Answer.waitedInsert) <| concludeWait_called_eq timeout surroundings
    line ring .insertWithin (repeatable_offer item ring.overwrite) hended

theorem waitToRemove_eq
    (hended : (ring.removeWithin timeout (clockwork VirtualClock.timepiece) rounds
      surroundings line).verdict ≠ .unsettled) :
    waitToRemove timeout surroundings line ring =
      (ring.removeWithin timeout (clockwork VirtualClock.timepiece) rounds surroundings
        line).toOutcome .waitedRemove :=
  congrArg (Wait.toOutcome Answer.waitedRemove) <| concludeWait_called_eq timeout surroundings
    line ring .removeWithin repeatable_take hended

end Ring

end

end SpscRing
