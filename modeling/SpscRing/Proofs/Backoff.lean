import Mathlib.Algebra.Group.Nat.Defs
import SpscRing.Proofs.Endings
/-!
# How long the sleeps of a wait are

The delay between two attempts doubles up to the cap of the pacing, and a sleep is cut short
at the deadline. Doubling stops at the largest duration, but no sleep shows that, as the cap is
never longer; and it is the delay that doubles, not the sleep that was cut.
-/

namespace SpscRing

/-- The delays in closed form: the largest duration cannot be told from the cap. -/
theorem Pacing.nanos_delayAt {pacing : Pacing} (hcap : pacing.interval ≤ pacing.cap)
    (place : Nat) :
    (pacing.delayAt place).nanos = min (2 ^ place * pacing.interval.nanos) pacing.cap.nanos := by
  have hmax := pacing.cap.nanos_le
  induction place with
  | zero =>
      rw [Nat.pow_zero, Nat.one_mul]
      exact (Nat.min_eq_left hcap).symm
  | succ place ih =>
      have hdouble : 2 ^ (place + 1) * pacing.interval.nanos =
          2 * (2 ^ place * pacing.interval.nanos) := by
        rw [Nat.pow_succ, Nat.mul_comm (2 ^ place) 2, Nat.mul_assoc]
      rw [delayAt, nextDelay, Duration.nanos_min, Duration.nanos_double, ih, hdouble]
      omega

namespace Wait.Plan

variable {β ρ σ ι : Type} {plan : Plan β ρ σ ι}

theorem passes_or_stops (plan : Plan β ρ σ ι) (rounds : Nat) :
    (∀ earlier < rounds, plan.Passes earlier) ∨
      ∃ place < rounds, (∀ earlier < place, plan.Passes earlier) ∧ ¬plan.Passes place := by
  induction rounds with
  | zero => exact .inl nofun
  | succ rounds ih =>
      rcases ih with hall | ⟨place, hlt, hstops⟩
      · by_cases hlast : plan.Passes rounds
        · exact .inl (Nat.forall_lt_succ_right.mpr ⟨hall, hlast⟩)
        · exact .inr ⟨rounds, rounds.lt_succ_self, hall, hlast⟩
      · exact .inr ⟨place, Nat.lt_succ_of_lt hlt, hstops⟩

/-- How far a wait has come: through rounds that all began in time, and at most to a last
reading after them. There are such rounds only where the pacing can be used. -/
structure Reaches (plan : Plan β ρ σ ι) (wait : Wait β ρ σ) (place : Nat) : Prop where
  trace : ∃ ending, wait.trace = plan.traceTo place ++ ending ∧ ending.filterMap Beat.sleep? = []
  inTime : ∀ earlier < place, earlier ∉ plan.late
  valid : 0 < place → plan.pacing.Valid

/-- The ends of a wait that has come through some rounds. But for the last, they stay the same
when more rounds are allowed. -/
inductive Ended (plan : Plan β ρ σ ι) (rounds place : Nat) : Wait β ρ σ → Prop where
  | settled {outcome : Except Fault β} {world : σ}
      (hlasts : ∀ more, plan.run (rounds + more) = ⟨.settled outcome, plan.traceTo place, world⟩) :
      Ended plan rounds place ⟨.settled outcome, plan.traceTo place, world⟩
  | gaveUp {world : σ} (hlate : place ∈ plan.late) (hfails : place ∉ plan.settling)
      (hlasts : ∀ more, plan.run (rounds + more) =
        ⟨.gaveUp, plan.traceTo place ++ [.elapsed (plan.reading place)], world⟩) :
      Ended plan rounds place
        ⟨.gaveUp, plan.traceTo place ++ [.elapsed (plan.reading place)], world⟩
  | unsettled {world : σ} (hall : place = rounds) :
      Ended plan rounds place ⟨.unsettled, plan.traceTo place, world⟩

theorem exists_ended (plan : Plan β ρ σ ι) (rounds : Nat) :
    ∃ place, plan.Ended rounds place (plan.run rounds) ∧
      (∀ earlier < place, earlier ∉ plan.late) ∧ (0 < place → plan.pacing.Valid) := by
  by_cases hends : 0 ∈ plan.settling ∨ plan.timeout.isZero = true
  · rw [run_of_atOnce rounds hends]
    exact ⟨0, .settled fun _ => run_of_atOnce _ hends, nofun, nofun⟩
  rw [not_or, Bool.not_eq_true] at hends
  obtain ⟨hfails, hwaits⟩ := hends
  by_cases hvalid : plan.pacing.Valid
  · rcases plan.passes_or_stops rounds with hall | ⟨place, hlt, hbefore, hstops⟩
    · rw [run_of_passesAll hfails hwaits hvalid hall]
      exact ⟨rounds, .unsettled rfl, fun earlier hlt => (hall earlier hlt).inTime, fun _ => hvalid⟩
    · have hinTime : ∀ earlier < place, earlier ∉ plan.late := fun earlier hlt =>
        (hbefore earlier hlt).inTime
      have hrounds : ∀ more, place < rounds + more := fun more => Nat.lt_add_right more hlt
      by_cases hlate : place ∈ plan.late
      · have hwaiting : place ∉ plan.settling := by
          cases place with
          | zero => exact hfails
          | succ earlier => exact (hbefore earlier earlier.lt_succ_self).fails
        rw [run_of_late hfails hwaits hvalid hbefore hlate hlt]
        exact ⟨place, .gaveUp hlate hwaiting fun more =>
          run_of_late hfails hwaits hvalid hbefore hlate (hrounds more), hinTime, fun _ => hvalid⟩
      · have hsettles : place + 1 ∈ plan.settling :=
          Decidable.not_not.mp fun hfails => hstops ⟨hlate, hfails⟩
        rw [run_of_settling hfails hwaits hvalid hbefore hlate hsettles hlt]
        exact ⟨place + 1, .settled fun more =>
          run_of_settling hfails hwaits hvalid hbefore hlate hsettles (hrounds more),
          Nat.forall_lt_succ_right.mpr ⟨hinTime, hlate⟩, fun _ => hvalid⟩
  · rw [run_of_badPacing rounds hfails hwaits hvalid]
    exact ⟨0, .settled fun _ => run_of_badPacing _ hfails hwaits hvalid, nofun, nofun⟩

theorem exists_reaches (plan : Plan β ρ σ ι) (rounds : Nat) :
    ∃ place, plan.Reaches (plan.run rounds) place := by
  obtain ⟨place, hended, hinTime, hvalid⟩ := plan.exists_ended rounds
  refine ⟨place, ?_, hinTime, hvalid⟩
  generalize plan.run rounds = wait at hended ⊢
  cases hended with
  | settled | unsettled => exact ⟨[], (List.append_nil _).symm, rfl⟩
  | gaveUp => exact ⟨_, rfl, rfl⟩

theorem sleeps_traceTo (place : Nat) :
    (plan.traceTo place).filterMap Beat.sleep? =
      (List.range place).map fun earlier => (plan.roundAt earlier).length := by
  induction place with
  | zero => rfl
  | succ place ih =>
      rw [traceTo_succ, List.filterMap_append, ih, List.range_succ, List.map_append]
      rfl

theorem traceTo_prefix {place later : Nat} (hle : place ≤ later) :
    plan.traceTo place <+: plan.traceTo later := by
  induction hle with
  | refl => exact List.prefix_rfl
  | step _ ih =>
      rw [traceTo_succ]
      exact ih.trans (List.prefix_append _ _)

theorem Reaches.sleep_eq {wait : Wait β ρ σ} {place k : Nat} {length : Duration}
    (hreaches : plan.Reaches wait place) (hsleep : wait.sleeps[k]? = some length) :
    k < place ∧ length = (plan.roundAt k).length := by
  obtain ⟨ending, htrace, hending⟩ := hreaches.trace
  rw [sleeps, htrace, List.filterMap_append, hending, List.append_nil, sleeps_traceTo,
    List.getElem?_map, Option.map_eq_some_iff] at hsleep
  obtain ⟨found, hfound, hlength⟩ := hsleep
  obtain ⟨hlt, rfl⟩ := List.getElem?_eq_some_iff.mp hfound
  rw [List.getElem_range] at hlength
  rw [List.length_range] at hlt
  exact ⟨hlt, hlength.symm⟩

/-- The schedule of a wait, for any clock and any attempts. Its k-th sleep follows on the k-th
reading, is exactly as long as the first interval doubled k times, the cap of the pacing or the
time that is left, whichever is the least, and is never empty. -/
theorem sleeps_back_off (plan : Plan β ρ σ ι) (rounds k : Nat) {length : Duration}
    (hsleep : (plan.run rounds).sleeps[k]? = some length) :
    length.nanos =
        min (2 ^ k * plan.pacing.interval.nanos)
          (min plan.pacing.cap.nanos (plan.timeout.nanos - (plan.reading k).nanos)) ∧
      0 < length.nanos ∧
      ∃ report later, (plan.run rounds).trace =
        plan.traceTo k ++ .elapsed (plan.reading k) :: .sleep length report :: later := by
  obtain ⟨place, hreaches⟩ := plan.exists_reaches rounds
  obtain ⟨hlt, rfl⟩ := hreaches.sleep_eq hsleep
  obtain ⟨hpos, hcap⟩ := hreaches.valid (Nat.zero_lt_of_lt hlt)
  have hlength : (plan.roundAt k).length.nanos =
      min (min (2 ^ k * plan.pacing.interval.nanos) plan.pacing.cap.nanos)
        (plan.timeout.nanos - (plan.reading k).nanos) := by
    rw [← Pacing.nanos_delayAt hcap, ← Duration.nanos_sub, ← Duration.nanos_min]
    rfl
  have hleft : (plan.reading k).nanos < plan.timeout.nanos :=
    Nat.not_le.mp (hreaches.inTime k hlt)
  have hgrown : plan.pacing.interval.nanos ≤ 2 ^ k * plan.pacing.interval.nanos :=
    Nat.le_mul_of_pos_left _ (Nat.two_pow_pos k)
  rw [Duration.le_def] at hcap
  refine ⟨by omega, by omega, (plan.roundAt k).report, ?_⟩
  obtain ⟨ending, htrace, _⟩ := hreaches.trace
  obtain ⟨rest, hrest⟩ := plan.traceTo_prefix (Nat.succ_le_of_lt hlt)
  refine ⟨.attempt (plan.outcome (k + 1)) :: (rest ++ ending), ?_⟩
  rw [htrace, ← hrest, traceTo_succ, List.append_assoc, List.append_assoc]
  rfl

/-- A wait as long as can be, with a first interval that cannot be doubled. Its first reading
leaves a nanosecond, and the second all the time there is. -/
def unhurried : Plan Nat Unit (Rehearsal Nat) Duration :=
  let longest := Duration.ofNanos Duration.maxNanos
  Rehearsal.plan
    ⟨⟨.zero, .zero, .zero, [longest - .ofNanos 1, .zero, longest]⟩, ⟨.error .empty, []⟩⟩
    (.backoff (.ofNanos 10000000000000000000000000000) longest) longest .empty

theorem sleeps_back_off_unhurried :
    let longest := Duration.ofNanos Duration.maxNanos
    (unhurried.run 9).sleeps = [.ofNanos 1, longest] ∧
      (unhurried.run 9).sleeps[1]? = some longest ∧
      longest.nanos =
        min (2 ^ 1 * 10000000000000000000000000000)
          (min longest.nanos (longest.nanos - Duration.zero.nanos)) ∧
      Duration.maxNanos < 2 ^ 1 * unhurried.pacing.interval.nanos := by
  intro longest
  have hsecond : (unhurried.run 9).sleeps[1]? = some longest := by decide
  obtain ⟨hlength, _⟩ := sleeps_back_off unhurried 9 1 hsecond
  exact ⟨by decide, hsecond, hlength, by decide⟩

end Wait.Plan

end SpscRing
