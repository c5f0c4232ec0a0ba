import Mathlib.Order.Nat
import SpscRing.Proofs.Waiting
import SpscRing.Wait.Rehearsal
/-!
# Which end a wait comes to

A wait is a race between its attempts and its clock: the first attempt that ends otherwise
than in the fault worth another one, against the first reading that is too late. The race is
told here for any clock and any attempts: the rounds of a wait are laid out as if nothing
could end them, and the wait itself goes along them up to the first end there is.
-/

namespace SpscRing

/-- What a wait is made with, and the world it begins in. -/
structure Wait.Plan (β ρ σ ι : Type) where
  clock : Clock σ ι ρ
  pacing : Pacing
  timeout : Duration
  retryOn : Fault
  attempt : σ → Except Fault β × σ
  world : σ

/-- One round of a wait: the time read, the sleep asked for with what was reported of it, and
the attempt made after it, with the world it left. -/
structure Wait.Round (β ρ σ : Type) where
  reading : Duration
  length : Duration
  report : ρ
  outcome : Except Fault β
  world : σ

def Wait.Round.beats {β ρ σ : Type} (round : Wait.Round β ρ σ) : List (Beat β ρ) :=
  [.elapsed round.reading, .sleep round.length round.report, .attempt round.outcome]

/-- The delay of each round, before the time that is left cuts it short. -/
def Pacing.delayAt (pacing : Pacing) : Nat → Duration
  | 0 => pacing.interval
  | round + 1 => pacing.nextDelay (pacing.delayAt round)

/-- What a wait that has ended tells: its result, its trace, and its lines in the log. -/
structure Wait.Tells {β ρ σ : Type} (timeout : Duration) (waitingOn : Fault) (wait : Wait β ρ σ)
    (result : Except Fault β) (trace : List (Beat β ρ)) (lines : List LogLine) : Prop where
  result : wait.verdict.result? = some result
  trace : wait.trace = trace
  lines : wait.verdict.logLines timeout waitingOn = lines

namespace Wait.Plan

variable {β ρ σ ι : Type} (plan : Plan β ρ σ ι)

def run (rounds : Nat) : Wait β ρ σ :=
  Wait.run plan.clock plan.pacing plan.timeout plan.retryOn plan.attempt rounds plan.world

def start : ι := (plan.clock.now plan.world).1

def firstAttempt : Except Fault β × σ := plan.attempt (plan.clock.now plan.world).2

/-- A round that begins in some world, be it still to be made or not. -/
def round (delay : Duration) (world : σ) : Round β ρ σ :=
  let (reading, world) := plan.clock.elapsed plan.start world
  let length := min delay (plan.timeout - reading)
  let (report, world) := plan.clock.sleep length world
  let (outcome, world) := plan.attempt world
  ⟨reading, length, report, outcome, world⟩

/-- The world after the first attempt and some rounds, were nothing to end the wait. -/
def worldAt : Nat → σ
  | 0 => plan.firstAttempt.2
  | place + 1 => (plan.round (plan.pacing.delayAt place) (worldAt place)).world

def roundAt (place : Nat) : Round β ρ σ :=
  plan.round (plan.pacing.delayAt place) (plan.worldAt place)

def outcome : Nat → Except Fault β
  | 0 => plan.firstAttempt.1
  | place + 1 => (plan.roundAt place).outcome

def reading (place : Nat) : Duration := (plan.roundAt place).reading

def traceTo (place : Nat) : List (Beat β ρ) :=
  [.now, .attempt (plan.outcome 0)] ++
    (List.range place).flatMap fun earlier => (plan.roundAt earlier).beats

/-- The attempts that decide: those that end otherwise than in the fault worth another one. -/
def settling : Set Nat := {place | plan.outcome place ≠ .error plan.retryOn}

def late : Set Nat := {place | plan.timeout ≤ plan.reading place}

instance (place : Nat) : Decidable (place ∈ plan.settling) :=
  decidable_of_iff (¬failsWith plan.retryOn (plan.outcome place) = true) (not_congr failsWith_iff)

instance (place : Nat) : Decidable (place ∈ plan.late) :=
  inferInstanceAs (Decidable (plan.timeout ≤ plan.reading place))

def retryFrom (place rounds : Nat) : Wait β ρ σ :=
  Wait.retry plan.clock plan.pacing plan.timeout plan.retryOn plan.attempt plan.start rounds
    (plan.pacing.delayAt place) (plan.worldAt place)

/-- A wait goes past a round that has time left and ends in another rejection. -/
structure Passes (place : Nat) : Prop where
  inTime : place ∉ plan.late
  fails : place + 1 ∉ plan.settling

variable {plan}

/-! ## Single rounds -/

theorem retryFrom_of_late {place : Nat} (rounds : Nat)
    (hlate : place ∈ plan.late) :
    plan.retryFrom place (rounds + 1) =
      ⟨.gaveUp, [.elapsed (plan.reading place)],
        (plan.clock.elapsed plan.start (plan.worldAt place)).2⟩ := by
  rw [retryFrom, Wait.retry]
  exact if_pos hlate

theorem retryFrom_of_settled {place : Nat} (rounds : Nat)
    (htime : place ∉ plan.late) (hends : place + 1 ∈ plan.settling) :
    plan.retryFrom place (rounds + 1) =
      ⟨.settled (plan.outcome (place + 1)), (plan.roundAt place).beats,
        plan.worldAt (place + 1)⟩ := by
  rw [retryFrom, Wait.retry]
  exact (if_neg htime).trans (if_neg (mt failsWith_iff.mp hends))

theorem retryFrom_of_passes {place : Nat} (rounds : Nat) (hpasses : plan.Passes place) :
    plan.retryFrom place (rounds + 1) =
      (plan.retryFrom (place + 1) rounds).after (plan.roundAt place).beats := by
  rw [retryFrom, Wait.retry]
  exact (if_neg hpasses.inTime).trans (if_pos (failsWith_iff.mpr (not_not.mp hpasses.fails)))

/-! ## The way to a round -/

theorem after_after {wait : Wait β ρ σ} (earlier later : List (Beat β ρ)) :
    (wait.after later).after earlier = wait.after (earlier ++ later) :=
  congrArg (fun trace => { wait with trace := trace }) (List.append_assoc earlier later _).symm

theorem traceTo_succ (place : Nat) :
    plan.traceTo (place + 1) = plan.traceTo place ++ (plan.roundAt place).beats := by
  simp only [traceTo, List.range_succ, List.flatMap_append, List.flatMap_singleton,
    List.append_assoc]

/-- A wait that passes some rounds is where it would be if nothing could end it. -/
theorem run_of_passes (hfails : 0 ∉ plan.settling)
    (hwaits : plan.timeout.isZero = false) (hvalid : plan.pacing.Valid) (place rounds : Nat)
    (hpasses : ∀ earlier < place, plan.Passes earlier) :
    plan.run (place + rounds) = (plan.retryFrom place rounds).after (plan.traceTo place) := by
  induction place generalizing rounds with
  | zero =>
      rw [Nat.zero_add]
      exact Wait.run_of_valid (failsWith_iff.mpr (not_not.mp hfails)) hwaits hvalid
  | succ place ih =>
      have hround := retryFrom_of_passes rounds (hpasses place place.lt_succ_self)
      rw [Nat.add_assoc, Nat.add_comm 1, ih _ fun earlier hlt => hpasses earlier (by omega),
        hround, after_after, traceTo_succ]

/-! ## The first end -/

section

variable (hfails : 0 ∉ plan.settling) (hwaits : plan.timeout.isZero = false)
  (hvalid : plan.pacing.Valid)

include hfails hwaits hvalid

/-- An attempt that decides ends a wait that has come as far. -/
theorem run_of_settling {place rounds : Nat} (hpasses : ∀ earlier < place, plan.Passes earlier)
    (htime : place ∉ plan.late) (hends : place + 1 ∈ plan.settling) (hrounds : place < rounds) :
    plan.run rounds =
      ⟨.settled (plan.outcome (place + 1)), plan.traceTo (place + 1),
        plan.worldAt (place + 1)⟩ := by
  obtain ⟨spare, rfl⟩ := Nat.exists_eq_add_of_lt hrounds
  rw [Nat.add_assoc, run_of_passes hfails hwaits hvalid place _ hpasses,
    retryFrom_of_settled spare htime hends, traceTo_succ]
  rfl

/-- A reading that is too late ends a wait that has come as far. -/
theorem run_of_late {place rounds : Nat} (hpasses : ∀ earlier < place, plan.Passes earlier)
    (hlate : place ∈ plan.late) (hrounds : place < rounds) :
    plan.run rounds =
      ⟨.gaveUp, plan.traceTo place ++ [.elapsed (plan.reading place)],
        (plan.clock.elapsed plan.start (plan.worldAt place)).2⟩ := by
  obtain ⟨spare, rfl⟩ := Nat.exists_eq_add_of_lt hrounds
  rw [Nat.add_assoc, run_of_passes hfails hwaits hvalid place _ hpasses,
    retryFrom_of_late spare hlate]
  rfl

theorem run_of_passesAll {rounds : Nat} (hpasses : ∀ earlier < rounds, plan.Passes earlier) :
    plan.run rounds = ⟨.unsettled, plan.traceTo rounds, plan.worldAt rounds⟩ := by
  have hall := run_of_passes hfails hwaits hvalid rounds 0 hpasses
  rw [Nat.add_zero] at hall
  rw [hall]
  exact congrArg (Wait.mk _ · _) (List.append_nil _)

end

theorem run_of_atOnce (rounds : Nat) (hends : 0 ∈ plan.settling ∨ plan.timeout.isZero = true) :
    plan.run rounds = ⟨.settled (plan.outcome 0), plan.traceTo 0, plan.worldAt 0⟩ := by
  refine Wait.run_of_settled (hends.imp_left fun hsettles => ?_)
  exact Bool.eq_false_iff.mpr (mt failsWith_iff.mp hsettles)

theorem run_of_badPacing (rounds : Nat) (hfails : 0 ∉ plan.settling)
    (hwaits : plan.timeout.isZero = false) (hinvalid : ¬plan.pacing.Valid) :
    plan.run rounds = ⟨.settled (.error .badPacing), plan.traceTo 0, plan.worldAt 0⟩ :=
  Wait.run_of_badPacing (failsWith_iff.mpr (not_not.mp hfails)) hwaits hinvalid

theorem isLeast_of_forall_lt {places : Set Nat} {least : Nat} (hmem : least ∈ places)
    (hbefore : ∀ place < least, place ∉ places) : IsLeast places least :=
  ⟨hmem, fun place hplace => Nat.not_lt.mp fun hlt => hbefore place hlt hplace⟩

open Classical in
theorem not_mem_of_lt {places : Set Nat} {bound place : Nat}
    (hbound : ∀ least, IsLeast places least → bound ≤ least) (hlt : place < bound) :
    place ∉ places := by
  intro hmem
  have hleast := Nat.isLeast_find (p := (· ∈ places)) ⟨place, hmem⟩
  have hle := hleast.2 hmem
  have hfound := hbound _ hleast
  omega

/-- The first end decides a wait, for any clock, any pacing and any attempts. If the first
attempt decides or there is no time to wait, its outcome is the result; a pacing is looked at
only after that. From then on the first attempt that decides gives the result, if no reading
before it came too late: one made after a sleep past the deadline still counts. Otherwise the
first late reading ends the wait with a timeout and one line in the log. With neither, the wait
goes on through all the rounds it is allowed. -/
theorem first_end_decides (plan : Plan β ρ σ ι) (rounds : Nat) :
    (0 ∈ plan.settling ∨ plan.timeout.isZero = true →
      (plan.run rounds).Tells plan.timeout plan.retryOn (plan.outcome 0) (plan.traceTo 0) []) ∧
    (0 ∉ plan.settling → plan.timeout.isZero = false →
      (¬plan.pacing.Valid →
        (plan.run rounds).Tells plan.timeout plan.retryOn (.error .badPacing) (plan.traceTo 0) []) ∧
      (plan.pacing.Valid →
        (∀ m, IsLeast plan.settling m → (∀ t, IsLeast plan.late t → m ≤ t) → m ≤ rounds →
          (plan.run rounds).Tells plan.timeout plan.retryOn (plan.outcome m) (plan.traceTo m) []) ∧
        (∀ t, IsLeast plan.late t → (∀ m, IsLeast plan.settling m → t < m) → t < rounds →
          (plan.run rounds).Tells plan.timeout plan.retryOn (.error .timedOut)
            (plan.traceTo t ++ [.elapsed (plan.reading t)]) [.timedOut plan.timeout plan.retryOn]) ∧
        ((∀ m, IsLeast plan.settling m → rounds < m) → (∀ t, IsLeast plan.late t → rounds ≤ t) →
          (plan.run rounds).verdict = .unsettled ∧
            (plan.run rounds).trace = plan.traceTo rounds))) := by
  have hpasses : ∀ {place}, (∀ m, IsLeast plan.settling m → place < m) →
      (∀ t, IsLeast plan.late t → place ≤ t) → ∀ earlier < place, plan.Passes earlier :=
    fun hfirst htime earlier hlt =>
      ⟨not_mem_of_lt htime hlt, not_mem_of_lt hfirst (Nat.succ_lt_succ hlt)⟩
  refine ⟨fun hends => ?atOnce, fun hfails hwaits => ⟨fun hinvalid => ?badPacing,
    fun hvalid => ⟨?settling, ?late, ?neither⟩⟩⟩
  case atOnce =>
    rw [run_of_atOnce rounds hends]
    exact ⟨rfl, rfl, rfl⟩
  case badPacing =>
    rw [run_of_badPacing rounds hfails hwaits hinvalid]
    exact ⟨rfl, rfl, rfl⟩
  case settling =>
    intro m hsettles htime hrounds
    cases m with
    | zero => exact absurd hsettles.1 hfails
    | succ place =>
        have hbefore : ∀ earlier < place, plan.Passes earlier :=
          hpasses (fun m hm => hsettles.2 hm.1) fun t ht => (Nat.le_succ place).trans (htime t ht)
        rw [run_of_settling hfails hwaits hvalid hbefore
          (not_mem_of_lt htime place.lt_succ_self) hsettles.1 hrounds]
        exact ⟨rfl, rfl, rfl⟩
  case late =>
    intro t hlate hfirst hrounds
    rw [run_of_late hfails hwaits hvalid (hpasses hfirst fun place hplace => hlate.2 hplace.1)
      hlate.1 hrounds]
    exact ⟨rfl, rfl, rfl⟩
  case neither =>
    intro hfirst htime
    rw [run_of_passesAll hfails hwaits hvalid (hpasses hfirst htime)]
    exact ⟨rfl, rfl⟩

end Wait.Plan

/-! ## Rehearsed waits -/

def Rehearsal.plan {β : Type} (rehearsal : Rehearsal β) (pacing : Pacing) (timeout : Duration)
    (retryOn : Fault) : Wait.Plan β Unit (Rehearsal β) Duration :=
  ⟨clockwork β, pacing, timeout, retryOn, attempt, rehearsal⟩

namespace Wait.Plan

def overslept (outcomes : Script (Except Fault Nat)) : Plan Nat Unit (Rehearsal Nat) Duration :=
  Rehearsal.plan ⟨⟨.zero, .zero, .ofNanos 2, []⟩, outcomes⟩ (.fixed (.ofNanos 1)) (.ofNanos 5) .full

theorem first_end_decides_overslept :
    let wins := overslept ⟨.error .full, [.error .full, .ok 7]⟩
    let loses := overslept ⟨.error .full, []⟩
    let first : List (Beat Nat Unit) :=
      [.now, .attempt (.error .full), .elapsed .zero, .sleep (.ofNanos 1) (),
        .attempt (.error .full), .elapsed (.ofNanos 3), .sleep (.ofNanos 1) ()]
    IsLeast wins.settling 2 ∧ IsLeast wins.late 2 ∧
      (wins.run 9).Tells (.ofNanos 5) .full (.ok 7) (first ++ [.attempt (.ok 7)]) [] ∧
      (∀ m, IsLeast loses.settling m → 2 < m) ∧ IsLeast loses.late 2 ∧
      (loses.run 9).Tells (.ofNanos 5) .full (.error .timedOut)
        (first ++ [.attempt (.error .full), .elapsed (.ofNanos 6)])
        [.timedOut (.ofNanos 5) .full] := by
  intro wins loses first
  have hwins : IsLeast wins.settling 2 := isLeast_of_forall_lt (by decide) (by decide)
  have hlate : IsLeast wins.late 2 := isLeast_of_forall_lt (by decide) (by decide)
  have hlost : IsLeast loses.late 2 := isLeast_of_forall_lt (by decide) (by decide)
  have hnever : ∀ m, IsLeast loses.settling m → 2 < m := fun m hsettles =>
    have hnone : ∀ place < 3, place ∉ loses.settling := by decide
    Nat.not_lt.mp fun hlt => hnone m hlt hsettles.1
  have hwon : wins.traceTo 2 = first ++ [.attempt (.ok 7)] := rfl
  have hgone : loses.traceTo 2 = first ++ [.attempt (.error .full)] := rfl
  obtain ⟨hwin, _⟩ := ((first_end_decides wins 9).2 (by decide) rfl).2 (by decide)
  obtain ⟨_, hlose, _⟩ := ((first_end_decides loses 9).2 (by decide) rfl).2 (by decide)
  have htold := hwin 2 hwins (fun t ht => hlate.2 ht.1) (by decide)
  have hlast := hlose 2 hlost hnever (by decide)
  have hreading : loses.reading 2 = .ofNanos 6 := by decide
  rw [hwon] at htold
  rw [hgone, hreading] at hlast
  exact ⟨hwins, hlate, htold, hnever, hlost, hlast⟩

end Wait.Plan

end SpscRing
