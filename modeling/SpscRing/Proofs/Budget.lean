import SpscRing.Proofs.Progress
/-!
# The time that a wait asks for

A wait never asks for more sleep than its timeout, at any moment, and gives up no sooner than
the deadline and no later than a reading after it. The invariant of its rounds is that all the
sleeps so far fit into what the next reading is due to be, and that this is no later than the
deadline. On a clock that keeps time to the nanosecond both are equal to what is read, so that
the wait ends at the deadline itself.
-/

namespace SpscRing

def Beat.slept {β ρ : Type} (beats : List (Beat β ρ)) : Nat :=
  ((beats.filterMap Beat.sleep?).map Duration.nanos).sum

theorem Beat.slept_append {β ρ : Type} (earlier later : List (Beat β ρ)) :
    slept (earlier ++ later) = slept earlier + slept later := by
  simp [slept]

/-- Each reading is the one before it and the sleep between them. -/
def Wait.KeepsTime {β ρ σ : Type} (wait : Wait β ρ σ) : Prop :=
  ∀ reckoning ∈ wait.reckonings, reckoning.reading = reckoning.due

instance {β ρ σ : Type} (wait : Wait β ρ σ) : Decidable wait.KeepsTime :=
  inferInstanceAs (Decidable (∀ reckoning ∈ wait.reckonings, _))

namespace Wait.Plan

open Beat

variable {β ρ σ ι : Type} {plan : Plan β ρ σ ι}

/-! ## Rounds -/

theorem slept_traceTo_succ (place : Nat) :
    slept (plan.traceTo (place + 1)) =
      slept (plan.traceTo place) + (plan.roundAt place).length.nanos := by
  rw [traceTo_succ, slept_append]
  rfl

/-- While readings do not fall short, they leave no room for sleeps before they are due. -/
theorem slept_le_due {place : Nat}
    (hprogress : ∀ earlier < place, plan.due earlier ≤ (plan.reading earlier).nanos) :
    slept (plan.traceTo place) ≤ plan.due place := by
  induction place with
  | zero => exact Nat.le_refl 0
  | succ place ih =>
      have hbefore := ih fun earlier hlt => hprogress earlier (Nat.lt_succ_of_lt hlt)
      have hreading := hprogress place place.lt_succ_self
      rw [slept_traceTo_succ, due]
      omega

theorem slept_eq_due {place : Nat}
    (hkeeps : ∀ earlier < place, (plan.reading earlier).nanos = plan.due earlier) :
    slept (plan.traceTo place) = plan.due place := by
  induction place with
  | zero => rfl
  | succ place ih =>
      have hbefore := ih fun earlier hlt => hkeeps earlier (Nat.lt_succ_of_lt hlt)
      rw [slept_traceTo_succ, due, hbefore, hkeeps place place.lt_succ_self]

theorem due_le_timeout {place : Nat} (hinTime : ∀ earlier < place, earlier ∉ plan.late) :
    plan.due place ≤ plan.timeout.nanos := by
  cases place with
  | zero => exact Nat.zero_le _
  | succ last =>
      have htime : (plan.reading last).nanos < plan.timeout.nanos :=
        Nat.not_le.mp (hinTime last last.lt_succ_self)
      rw [due, nanos_length]
      omega

theorem elapsed_mem_traceTo {place : Nat} {reading : Duration}
    (hmem : .elapsed reading ∈ plan.traceTo place) :
    ∃ earlier < place, plan.reading earlier = reading := by
  induction place with
  | zero => simp [traceTo] at hmem
  | succ place ih =>
      rw [traceTo_succ, List.mem_append] at hmem
      rcases hmem with hbefore | hlast
      · obtain ⟨earlier, hlt, hreading⟩ := ih hbefore
        exact ⟨earlier, Nat.lt_succ_of_lt hlt, hreading⟩
      · have hreading : reading = plan.reading place := by
          simpa [Round.beats, Plan.reading] using hlast
        exact ⟨place, place.lt_succ_self, hreading.symm⟩

/-! ## Waits as they end -/

variable {wait : Wait β ρ σ} {rounds place : Nat}

theorem Ended.slept_trace (hended : plan.Ended rounds place wait) :
    slept wait.trace = slept (plan.traceTo place) := by
  obtain ⟨ending, htrace, hsleeps, _⟩ := hended.exists_trace
  rw [htrace, slept_append]
  simp [slept, hsleeps]

theorem Ended.no_sleep_of_late (hended : plan.Ended rounds place wait)
    (hinTime : ∀ earlier < place, earlier ∉ plan.late) {earlier later : List (Beat β ρ)}
    {reading : Duration} (hbeats : wait.trace = earlier ++ .elapsed reading :: later)
    (hlate : plan.timeout ≤ reading) : later.filterMap Beat.sleep? = [] := by
  obtain ⟨ending, htrace, hsleeps, _⟩ := hended.exists_trace
  have hafter : later ⊆ ending := by
    rw [htrace, List.append_eq_append_iff] at hbeats
    rcases hbeats with ⟨tail, hearlier, rfl⟩ | ⟨_ | ⟨beat, tail⟩, hrounds, hlater⟩
    · exact fun _ hbeat => List.mem_append_right _ (List.mem_cons_of_mem _ hbeat)
    · rw [← List.nil_append ending, ← hlater]
      exact fun _ hbeat => List.mem_cons_of_mem _ hbeat
    · obtain ⟨rfl, -⟩ := List.cons.inj hlater
      have hmem : .elapsed reading ∈ plan.traceTo place := by
        rw [hrounds]
        exact List.mem_append_right _ List.mem_cons_self
      obtain ⟨early, hlt, hreading⟩ := elapsed_mem_traceTo hmem
      rw [← hreading] at hlate
      exact absurd hlate (hinTime early hlt)
  rw [List.filterMap_eq_nil_iff] at hsleeps ⊢
  exact fun beat hbeat => hsleeps beat (hafter hbeat)

/-- The last two beats before a wait gives up are an attempt in vain and a reading. -/
theorem exists_traceTo_eq (hfails : place ∉ plan.settling) :
    ∃ earlier, plan.traceTo place = earlier ++ [.attempt (.error plan.retryOn)] := by
  have hlast : plan.outcome place = .error plan.retryOn := not_not.mp hfails
  rw [← hlast]
  cases place with
  | zero => exact ⟨[.now], rfl⟩
  | succ place =>
      rw [traceTo_succ]
      exact ⟨plan.traceTo place ++ [.elapsed (plan.reading place),
        .sleep (plan.roundAt place).length (plan.roundAt place).report], by simp; rfl⟩

theorem Ended.of_gaveUp (hended : plan.Ended rounds place wait) (hgaveUp : wait.verdict = .gaveUp) :
    wait.trace = plan.traceTo place ++ [.elapsed (plan.reading place)] ∧ place ∈ plan.late ∧
      place ∉ plan.settling := by
  cases hended with
  | settled | unsettled => cases hgaveUp
  | gaveUp hlate hfails => exact ⟨rfl, hlate, hfails⟩

/-- Where the clock keeps time, the deadline is met to the nanosecond. -/
theorem Ended.meets_deadline (hended : plan.Ended rounds place wait)
    (hinTime : ∀ earlier < place, earlier ∉ plan.late) (hgaveUp : wait.verdict = .gaveUp)
    (hkeeps : wait.KeepsTime) :
    plan.reading place = plan.timeout ∧ slept wait.trace = plan.timeout.nanos := by
  obtain ⟨htrace, hlate, -⟩ := hended.of_gaveUp hgaveUp
  have hearlier : ∀ earlier < place, (plan.reading earlier).nanos = plan.due earlier :=
    fun earlier hlt => hkeeps _ (reckoning_mem htrace hlt)
  have hlast : (plan.reading place).nanos = plan.due place := by
    refine hkeeps ⟨plan.due place, (plan.reading place).nanos⟩ ?_
    rw [reckonings, htrace, reckon_traceTo]
    exact List.mem_append_right _ List.mem_cons_self
  have hdue := due_le_timeout hinTime
  have hreached : plan.timeout.nanos ≤ (plan.reading place).nanos := hlate
  constructor
  · ext
    omega
  · rw [hended.slept_trace, slept_eq_due hearlier]
    omega

/-- The budget of a wait, for any pacing, any attempts and any clock that makes progress. At no
moment have its sleeps so far asked for more than the timeout. No sleep is asked for once a
reading has reached the timeout, and a wait that gives up has just read as much, after one more
attempt in vain. If the clock keeps time, it reads the timeout itself, and that is what the
sleeps add up to. -/
theorem sleeps_keep_to_budget (plan : Plan β ρ σ ι) (rounds : Nat) :
    let wait := plan.run rounds
    (wait.Progresses → ∀ earlier later, wait.trace = earlier ++ later →
      slept earlier ≤ plan.timeout.nanos) ∧
      (∀ earlier reading later, wait.trace = earlier ++ .elapsed reading :: later →
        plan.timeout ≤ reading → later.filterMap Beat.sleep? = []) ∧
      (wait.verdict = .gaveUp → ∃ earlier reading,
        wait.trace = earlier ++ [.attempt (.error plan.retryOn), .elapsed reading] ∧
          plan.timeout ≤ reading ∧
          (wait.KeepsTime → reading = plan.timeout ∧ slept wait.trace = plan.timeout.nanos)) := by
  intro wait
  obtain ⟨place, hended, hinTime, -⟩ := plan.exists_ended rounds
  refine ⟨fun hprogress earlier later htrace => ?budget,
    fun earlier reading later => hended.no_sleep_of_late hinTime, fun hgaveUp => ?gaveUp⟩
  case budget =>
    have hall : slept wait.trace ≤ plan.due place := by
      rw [hended.slept_trace]
      exact slept_le_due (hended.due_le_reading hprogress)
    have hdue := due_le_timeout hinTime
    rw [htrace, slept_append] at hall
    omega
  case gaveUp =>
    obtain ⟨htrace, hlate, hfails⟩ := hended.of_gaveUp hgaveUp
    obtain ⟨earlier, hrounds⟩ := exists_traceTo_eq hfails
    refine ⟨earlier, plan.reading place, ?_, hlate, hended.meets_deadline hinTime hgaveUp⟩
    rw [htrace, hrounds, List.append_assoc]
    rfl

def doubling : Plan Nat Unit (Rehearsal Nat) Duration :=
  punctual (.backoff (.ofNanos 1) (.ofNanos 3))

theorem sleeps_keep_to_budget_doubling :
    let wait := doubling.run 9
    let before : List (Beat Nat Unit) :=
      [.now, .attempt (.error .full), .elapsed .zero, .sleep (.ofNanos 1) (),
        .attempt (.error .full), .elapsed (.ofNanos 1), .sleep (.ofNanos 2) ()]
    let after : List (Beat Nat Unit) :=
      [.attempt (.error .full), .elapsed (.ofNanos 3), .sleep (.ofNanos 2) (),
        .attempt (.error .full), .elapsed (.ofNanos 5)]
    wait.Progresses ∧ wait.trace = before ++ after ∧ slept before ≤ 5 ∧
      wait.verdict = .gaveUp ∧ wait.KeepsTime ∧ slept wait.trace = 5 ∧
      ∃ earlier, wait.trace = earlier ++ [.attempt (.error .full), .elapsed (.ofNanos 5)] := by
  intro wait before after
  have hprogress : wait.Progresses := by decide
  have htrace : wait.trace = before ++ after := rfl
  have hkeeps : wait.KeepsTime := by decide
  obtain ⟨hbudget, -, hends⟩ := sleeps_keep_to_budget doubling 9
  obtain ⟨earlier, reading, hlast, -, hmeets⟩ := hends rfl
  obtain ⟨rfl, hslept⟩ := hmeets hkeeps
  exact ⟨hprogress, htrace, hbudget hprogress before after htrace, rfl, hkeeps, hslept, earlier,
    hlast⟩

end Wait.Plan

end SpscRing
