import Mathlib.Algebra.Order.Floor.Div
import SpscRing.Proofs.Backoff
/-!
# Waits on a clock that makes progress

A clock makes progress if a sleep takes as long as was asked for, at least. It may oversleep and
drift. On such a clock every wait ends: a sleep that is not cut short is no shorter than the
first interval of the pacing, and one that is cut short brings the deadline.
-/

namespace SpscRing

/-- A reading of the clock, and what it was due to be: the reading before it, and all that was
slept in between. Both are in nanoseconds. -/
structure Reckoning where
  due : Nat
  reading : Nat
  deriving DecidableEq, Repr

def Beat.reckon {β ρ : Type} (due : Nat) : List (Beat β ρ) → List Reckoning
  | [] => []
  | .elapsed reading :: later => ⟨due, reading.nanos⟩ :: reckon reading.nanos later
  | .sleep length _ :: later => reckon (due + length.nanos) later
  | .now :: later | .attempt _ :: later => reckon due later

namespace Wait

variable {β ρ σ : Type} (wait : Wait β ρ σ)

/-- The readings of a wait. Nothing has passed when the first is due. -/
def reckonings : List Reckoning := Beat.reckon 0 wait.trace

/-- No reading falls short of the one before it and the sleep between them. -/
def Progresses : Prop := ∀ reckoning ∈ wait.reckonings, reckoning.due ≤ reckoning.reading

instance : Decidable wait.Progresses :=
  inferInstanceAs (Decidable (∀ reckoning ∈ wait.reckonings, _))

end Wait

namespace Wait.Plan

variable {β ρ σ ι : Type} {plan : Plan β ρ σ ι}

/-! ## What readings are due to be -/

def due (plan : Plan β ρ σ ι) : Nat → Nat
  | 0 => 0
  | place + 1 => (plan.reading place).nanos + (plan.roundAt place).length.nanos

theorem reckon_traceTo (place : Nat) (ending : List (Beat β ρ)) :
    Beat.reckon 0 (plan.traceTo place ++ ending) =
      (List.range place).map (fun earlier => ⟨plan.due earlier, (plan.reading earlier).nanos⟩) ++
        Beat.reckon (plan.due place) ending := by
  induction place generalizing ending with
  | zero => rfl
  | succ place ih =>
      have hround : Beat.reckon (plan.due place) ((plan.roundAt place).beats ++ ending) =
          ⟨plan.due place, (plan.reading place).nanos⟩ ::
            Beat.reckon (plan.due (place + 1)) ending := rfl
      rw [traceTo_succ, List.append_assoc, ih, hround, List.range_succ, List.map_append,
        List.append_assoc]
      rfl

/-- The rounds that a wait has come through bear witness to its clock. -/
theorem reckoning_mem {wait : Wait β ρ σ} {place earlier : Nat} {ending : List (Beat β ρ)}
    (htrace : wait.trace = plan.traceTo place ++ ending) (hlt : earlier < place) :
    ⟨plan.due earlier, (plan.reading earlier).nanos⟩ ∈ wait.reckonings := by
  rw [reckonings, htrace, reckon_traceTo]
  apply List.mem_append_left
  exact List.mem_map_of_mem (List.mem_range.mpr hlt)

theorem nanos_length (place : Nat) :
    (plan.roundAt place).length.nanos =
      min (plan.pacing.delayAt place).nanos (plan.timeout.nanos - (plan.reading place).nanos) := by
  rw [← Duration.nanos_sub, ← Duration.nanos_min]
  rfl

theorem interval_le_delayAt (hvalid : plan.pacing.Valid) (place : Nat) :
    plan.pacing.interval.nanos ≤ (plan.pacing.delayAt place).nanos := by
  obtain ⟨_, hcap⟩ := hvalid
  have hgrown : plan.pacing.interval.nanos ≤ 2 ^ place * plan.pacing.interval.nanos :=
    Nat.le_mul_of_pos_left _ (Nat.two_pow_pos place)
  rw [Pacing.nanos_delayAt hcap, Nat.le_min]
  exact ⟨hgrown, hcap⟩

theorem length_pos (hvalid : plan.pacing.Valid) {place : Nat} (hinTime : place ∉ plan.late) :
    0 < (plan.roundAt place).length.nanos := by
  have hdelay := interval_le_delayAt hvalid place
  have hfirst := hvalid.1
  have hleft : (plan.reading place).nanos < plan.timeout.nanos := Nat.not_le.mp hinTime
  rw [nanos_length]
  omega

/-- As many intervals have passed as rounds were made, or the deadline has come. -/
theorem mul_interval_le_due (hvalid : plan.pacing.Valid) {place : Nat}
    (hprogress : ∀ earlier < place, plan.due earlier ≤ (plan.reading earlier).nanos) :
    min (place * plan.pacing.interval.nanos) plan.timeout.nanos ≤ plan.due place := by
  induction place with
  | zero => simp
  | succ place ih =>
      have hbefore := ih fun earlier hlt => hprogress earlier (Nat.lt_succ_of_lt hlt)
      have hreading := hprogress place place.lt_succ_self
      have hdelay := interval_le_delayAt hvalid place
      rw [due, nanos_length, Nat.succ_mul]
      omega

/-- A wait cannot go through more rounds in time than the timeout takes intervals. -/
theorem le_ceilDiv_of_inTime (hvalid : plan.pacing.Valid) {place : Nat}
    (hprogress : ∀ earlier < place, plan.due earlier ≤ (plan.reading earlier).nanos)
    (hinTime : ∀ earlier < place, earlier ∉ plan.late) :
    place ≤ plan.timeout.nanos ⌈/⌉ plan.pacing.interval.nanos := by
  cases place with
  | zero => exact Nat.zero_le _
  | succ last =>
      have hpassed := mul_interval_le_due hvalid fun earlier hlt =>
        hprogress earlier (Nat.lt_succ_of_lt hlt)
      have hreading := hprogress last last.lt_succ_self
      have htime : (plan.reading last).nanos < plan.timeout.nanos :=
        Nat.not_le.mp (hinTime last last.lt_succ_self)
      have hshort : ¬plan.timeout.nanos ≤ plan.pacing.interval.nanos * last := by
        rw [Nat.mul_comm]
        omega
      rw [← ceilDiv_le_iff_le_mul hvalid.1] at hshort
      omega

/-! ## Waits as they end -/

theorem Ended.exists_trace {wait : Wait β ρ σ} {rounds place : Nat}
    (hended : plan.Ended rounds place wait) :
    ∃ ending, wait.trace = plan.traceTo place ++ ending ∧
      ending.filterMap Beat.sleep? = [] ∧ ending.filterMap Beat.outcome? = [] := by
  cases hended with
  | settled | unsettled => exact ⟨[], (List.append_nil _).symm, rfl, rfl⟩
  | gaveUp => exact ⟨_, rfl, rfl, rfl⟩

theorem outcomes_traceTo (place : Nat) :
    ((plan.traceTo place).filterMap Beat.outcome?).length = place + 1 := by
  induction place with
  | zero => rfl
  | succ place ih =>
      rw [traceTo_succ, List.filterMap_append, List.length_append, ih]
      rfl

theorem Ended.sleeps_eq {wait : Wait β ρ σ} {rounds place : Nat}
    (hended : plan.Ended rounds place wait) :
    wait.sleeps = (List.range place).map fun earlier => (plan.roundAt earlier).length := by
  obtain ⟨ending, htrace, hsleeps, _⟩ := hended.exists_trace
  rw [sleeps, htrace, List.filterMap_append, hsleeps, List.append_nil, sleeps_traceTo]

theorem Ended.length_outcomes {wait : Wait β ρ σ} {rounds place : Nat}
    (hended : plan.Ended rounds place wait) : wait.outcomes.length = place + 1 := by
  obtain ⟨ending, htrace, _, houtcomes⟩ := hended.exists_trace
  simp [outcomes, htrace, houtcomes, outcomes_traceTo]

theorem Ended.due_le_reading {wait : Wait β ρ σ} {rounds place : Nat}
    (hended : plan.Ended rounds place wait) (hprogress : wait.Progresses) :
    ∀ earlier < place, plan.due earlier ≤ (plan.reading earlier).nanos := by
  intro earlier hlt
  obtain ⟨_, htrace, _⟩ := hended.exists_trace
  exact hprogress _ (reckoning_mem htrace hlt)

/-- A wait that has not used up its rounds has a result, and has the same with more of them. -/
theorem Ended.exists_result {rounds place : Nat}
    (hended : plan.Ended rounds place (plan.run rounds)) (hspare : place < rounds) :
    ∃ result, (plan.run rounds).verdict.result? = some result ∧
      ∀ more, plan.run (rounds + more) = plan.run rounds := by
  generalize plan.run rounds = wait at hended
  cases hended with
  | settled hlasts => exact ⟨_, rfl, hlasts⟩
  | gaveUp _ _ hlasts => exact ⟨_, rfl, hlasts⟩
  | unsettled hall => omega

/-- A wait does not spin, and on a clock that makes progress it ends. With a pacing that can be
used it sleeps at most as many times as the timeout takes intervals, rounded up, and makes one
attempt more than it sleeps; when so many rounds are allowed it has a result, and the same one
whatever is allowed beyond them. A pacing that cannot be used never gets as far as a reading of
the clock. With any pacing and any clock there is a sleep of some length before every attempt
but the first. -/
theorem progress_bounds_rounds (plan : Plan β ρ σ ι) (rounds : Nat) :
    let wait := plan.run rounds
    let most := plan.timeout.nanos ⌈/⌉ plan.pacing.interval.nanos
    (plan.pacing.Valid → wait.Progresses →
      wait.sleeps.length ≤ most ∧ wait.outcomes.length ≤ most + 1 ∧
        (most < rounds → ∃ result, wait.verdict.result? = some result ∧
          ∀ more, plan.run (rounds + more) = wait)) ∧
      (¬plan.pacing.Valid → wait.trace = [.now, .attempt (plan.outcome 0)] ∧
        ∃ outcome, wait.verdict = .settled outcome) ∧
      wait.outcomes.length = wait.sleeps.length + 1 ∧ ∀ length ∈ wait.sleeps, 0 < length.nanos := by
  intro wait most
  obtain ⟨place, hended, hinTime, hpaced⟩ := plan.exists_ended rounds
  have hsleeps : wait.sleeps.length = place := by simp [hended.sleeps_eq, wait]
  have houtcomes : wait.outcomes.length = place + 1 := hended.length_outcomes
  refine ⟨fun hvalid hprogress => ?valid, fun hinvalid => ?invalid, ?attempts, ?sleeps⟩
  case valid =>
    have hmost : place ≤ most :=
      le_ceilDiv_of_inTime hvalid (hended.due_le_reading hprogress) hinTime
    rw [hsleeps, houtcomes]
    exact ⟨hmost, Nat.succ_le_succ hmost, fun hrounds =>
      hended.exists_result (Nat.lt_of_le_of_lt hmost hrounds)⟩
  case invalid =>
    by_cases hends : 0 ∈ plan.settling ∨ plan.timeout.isZero = true
    · have hrun : wait = _ := run_of_atOnce rounds hends
      rw [hrun]
      exact ⟨rfl, _, rfl⟩
    · rw [not_or, Bool.not_eq_true] at hends
      have hrun : wait = _ := run_of_badPacing rounds hends.1 hends.2 hinvalid
      rw [hrun]
      exact ⟨rfl, _, rfl⟩
  case attempts => rw [houtcomes, hsleeps]
  case sleeps =>
    rw [hended.sleeps_eq, List.forall_mem_map]
    intro earlier hearlier
    have hlt := List.mem_range.mp hearlier
    exact length_pos (hpaced (Nat.zero_lt_of_lt hlt)) (hinTime earlier hlt)

def punctual (pacing : Pacing) : Plan Nat Unit (Rehearsal Nat) Duration :=
  Rehearsal.plan ⟨.exact (.ofNanos 7), ⟨.error .full, []⟩⟩ pacing (.ofNanos 5) .full

/-- As many sleeps as there can be; and none with a pacing that would spin. -/
theorem progress_bounds_rounds_punctual :
    let wait := (punctual (.fixed (.ofNanos 2))).run 4
    let spinning := (punctual (.fixed .zero)).run 4
    ((punctual (.fixed (.ofNanos 2))).pacing.Valid ∧ wait.Progresses ∧
        wait.sleeps = [.ofNanos 2, .ofNanos 2, .ofNanos 1] ∧ wait.sleeps.length ≤ 5 ⌈/⌉ 2 ∧
        wait.outcomes.length ≤ 5 ⌈/⌉ 2 + 1 ∧ 5 ⌈/⌉ 2 < 4 ∧
        ∃ result, wait.verdict.result? = some result) ∧
      ¬(punctual (.fixed .zero)).pacing.Valid ∧
        spinning.trace = [.now, .attempt (.error .full)] := by
  intro wait spinning
  have hvalid : (punctual (.fixed (.ofNanos 2))).pacing.Valid := by decide
  have hprogress : wait.Progresses := by decide
  have hinvalid : ¬(punctual (.fixed .zero)).pacing.Valid := by decide
  have hrounds : 5 ⌈/⌉ 2 < 4 := by decide
  obtain ⟨hbounded, _⟩ := progress_bounds_rounds (punctual (.fixed (.ofNanos 2))) 4
  obtain ⟨_, hrefused, _⟩ := progress_bounds_rounds (punctual (.fixed .zero)) 4
  obtain ⟨hsleeps, houtcomes, hreturns⟩ := hbounded hvalid hprogress
  obtain ⟨result, hresult, _⟩ := hreturns hrounds
  exact ⟨⟨hvalid, hprogress, by decide, hsleeps, houtcomes, hrounds, result, hresult⟩, hinvalid,
    (hrefused hinvalid).1⟩

end Wait.Plan

end SpscRing
