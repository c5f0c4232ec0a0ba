import SpscRing.Proofs.Course
import SpscRing.Session.Shared
/-!
# Waiting calls, seen from the ring

Of a waiting call the ring sees attempts, and between two of them a turn of the others.
The clock decides how often that goes on, but has no part in what happens. Here the
loop is opened once, and its clock taken out: later proofs go by induction on the rounds.
-/

namespace SpscRing

/-! ## How a wait begins -/

theorem failsWith_iff {β : Type} {retryOn : Fault} {outcome : Except Fault β} :
    failsWith retryOn outcome = true ↔ outcome = .error retryOn := by
  cases outcome <;> simp [failsWith]

section

variable {β ρ σ ι : Type} {clock : Clock σ ι ρ} {pacing : Pacing} {timeout : Duration}
  {retryOn : Fault} {attempt : σ → Except Fault β × σ} {rounds : Nat} {world : σ}

theorem Wait.run_of_settled
    (hends : failsWith retryOn (attempt (clock.now world).2).1 = false ∨ timeout.isZero = true) :
    Wait.run clock pacing timeout retryOn attempt rounds world =
      ⟨.settled (attempt (clock.now world).2).1, [.now, .attempt (attempt (clock.now world).2).1],
        (attempt (clock.now world).2).2⟩ := by
  have hstops : (failsWith retryOn (attempt (clock.now world).2).1 && !timeout.isZero) = false := by
    rcases hends with hends | hzero
    · rw [hends, Bool.false_and]
    · rw [hzero, Bool.not_true, Bool.and_false]
  rw [Wait.run]
  simp only [hstops, Bool.false_eq_true, if_false]

theorem Wait.run_of_badPacing
    (hfails : failsWith retryOn (attempt (clock.now world).2).1 = true)
    (hwaits : timeout.isZero = false) (hpacing : ¬pacing.Valid) :
    Wait.run clock pacing timeout retryOn attempt rounds world =
      ⟨.settled (.error .badPacing), [.now, .attempt (attempt (clock.now world).2).1],
        (attempt (clock.now world).2).2⟩ := by
  simp only [Wait.run, hfails, hwaits, Bool.not_false, Bool.and_self, if_true,
    Pacing.validate_eq, if_neg hpacing]

theorem Wait.run_of_valid (hfails : failsWith retryOn (attempt (clock.now world).2).1 = true)
    (hwaits : timeout.isZero = false) (hpacing : pacing.Valid) :
    Wait.run clock pacing timeout retryOn attempt rounds world =
      (Wait.retry clock pacing timeout retryOn attempt (clock.now world).1 rounds pacing.interval
        (attempt (clock.now world).2).2).after
          [.now, .attempt (attempt (clock.now world).2).1] := by
  simp only [Wait.run, hfails, hwaits, Bool.not_false, Bool.and_self, if_true,
    Pacing.validate_eq, if_pos hpacing]

end

/-! ## Waits over interludes -/

variable {α β κ ι : Type}

def Surroundings.turn (interludes : List (Interlude α)) : Interlude α :=
  interludes.headD fun ring => .query ring []

def roundBeats (reading length : Duration) (report : List (Answer α))
    (outcome : Except Fault β) : List (Beat β (List (Answer α))) :=
  [.elapsed reading, .sleep length report, .attempt outcome]

open Surroundings in
/-- The rounds of a waiting call after its first attempt: from which interludes and
ring they start, how they end, their trace, their events, and the ring after them. -/
inductive Rounds (attempt : Ring α → Outcome α (Except Fault β)) (waitingOn : Fault) :
    List (Interlude α) → Ring α → Verdict β → List (Beat β (List (Answer α))) →
      List (Event α) → Ring α → Prop where
  | unsettled (interludes : List (Interlude α)) (ring : Ring α) :
      Rounds attempt waitingOn interludes ring .unsettled [] [] ring
  | gaveUp (interludes : List (Interlude α)) (ring : Ring α) (reading : Duration) :
      Rounds attempt waitingOn interludes ring .gaveUp [.elapsed reading] [] ring
  | settled {interludes : List (Interlude α)} {ring : Ring α} (reading length : Duration)
      {peers : Outcome α (List (Answer α))} {tried : Outcome α (Except Fault β)}
      (hpeers : turn interludes ring = peers) (htried : attempt peers.ring = tried)
      (hends : failsWith waitingOn tried.result = false) :
      Rounds attempt waitingOn interludes ring (.settled tried.result)
        (roundBeats reading length peers.result tried.result) (peers.events ++ tried.events)
        tried.ring
  | again {interludes : List (Interlude α)} {ring final : Ring α} (reading length : Duration)
      {peers : Outcome α (List (Answer α))} {tried : Outcome α (Except Fault β)}
      {verdict : Verdict β} {trace : List (Beat β (List (Answer α)))} {events : List (Event α)}
      (hpeers : turn interludes ring = peers) (htried : attempt peers.ring = tried)
      (hfails : failsWith waitingOn tried.result = true)
      (hlater : Rounds attempt waitingOn interludes.tail tried.ring verdict trace events final) :
      Rounds attempt waitingOn interludes ring verdict
        (roundBeats reading length peers.result tried.result ++ trace)
        (peers.events ++ tried.events ++ events) final

/-- A whole wait on a ring: the first attempt, made at once, and the rounds after it. -/
inductive Waited (attempt : Ring α → Outcome α (Except Fault β)) (waitingOn : Fault)
    (pacing : Pacing) (timeout : Duration) (interludes : List (Interlude α)) (ring : Ring α) :
    Verdict β → List (Beat β (List (Answer α))) → List (Event α) → Ring α → Prop where
  | atOnce {tried : Outcome α (Except Fault β)} (htried : attempt ring = tried)
      (hends : failsWith waitingOn tried.result = false ∨ timeout.isZero = true) :
      Waited attempt waitingOn pacing timeout interludes ring (.settled tried.result)
        [.now, .attempt tried.result] tried.events tried.ring
  | badPacing {tried : Outcome α (Except Fault β)} (htried : attempt ring = tried)
      (hfails : failsWith waitingOn tried.result = true) (hwaits : timeout.isZero = false)
      (hpacing : ¬pacing.Valid) :
      Waited attempt waitingOn pacing timeout interludes ring (.settled (.error .badPacing))
        [.now, .attempt tried.result] tried.events tried.ring
  | later {tried : Outcome α (Except Fault β)} {final : Ring α} {verdict : Verdict β}
      {trace : List (Beat β (List (Answer α)))} {events : List (Event α)}
      (htried : attempt ring = tried) (hfails : failsWith waitingOn tried.result = true)
      (hwaits : timeout.isZero = false) (hpacing : pacing.Valid)
      (hrounds : Rounds attempt waitingOn interludes tried.ring verdict trace events final) :
      Waited attempt waitingOn pacing timeout interludes ring verdict
        ([.now, .attempt tried.result] ++ trace) (tried.events ++ events) final

/-! ## The loop -/

section

open Surroundings

variable (timepiece : Clock κ ι Unit)

theorem events_round (ring : Ring α) (history peers tried : List (Event α))
    (surroundings : Surroundings α κ) :
    Waiting.events ⟨ring, tried.reverse ++ (peers.reverse ++ history), surroundings⟩ =
      history.reverse ++ (peers ++ tried) := by
  simp [Waiting.events]

/-- A round of the loop: what the clock reads has nothing to do with the ring, and a sleep
gives others their turn before the next attempt. -/
theorem retry_succ (pacing : Pacing) (timeout : Duration) (waitingOn : Fault) (start : ι)
    (rounds : Nat) (delay : Duration) (clock : κ) (interludes : List (Interlude α)) :
    ∃ (reading : Duration) (read slept : κ), ∀ (attempt : Ring α → Outcome α (Except Fault β))
      (ring : Ring α) (history : List (Event α)),
      let loop := Wait.retry (clockwork timepiece) pacing timeout waitingOn
        (Waiting.perform attempt) start
      let peers := turn interludes ring
      let tried := attempt peers.ring
      let beats := roundBeats reading (min delay (timeout - reading)) peers.result tried.result
      let next : Waiting α (Surroundings α κ) :=
        ⟨tried.ring, tried.events.reverse ++ (peers.events.reverse ++ history),
          ⟨slept, interludes.tail⟩⟩
      loop (rounds + 1) delay ⟨ring, history, ⟨clock, interludes⟩⟩ =
        if timeout ≤ reading then
          ⟨.gaveUp, [.elapsed reading], ⟨ring, history, ⟨read, interludes⟩⟩⟩
        else if failsWith waitingOn tried.result then
          (loop rounds (pacing.nextDelay delay) next).after beats
        else
          ⟨.settled tried.result, beats, next⟩ := by
  let reading := (timepiece.elapsed start clock).1
  let read := (timepiece.elapsed start clock).2
  let slept := (timepiece.sleep (min delay (timeout - reading)) read).2
  refine ⟨reading, read, slept, fun attempt ring history => ?_⟩
  cases interludes with
  | nil | cons => rfl

theorem retry_rounds (pacing : Pacing) (timeout : Duration) (waitingOn : Fault)
    (attempt : Ring α → Outcome α (Except Fault β)) (start : ι) (rounds : Nat)
    (delay : Duration) (world : Waiting α (Surroundings α κ)) :
    let wait := Wait.retry (clockwork timepiece) pacing timeout waitingOn
      (Waiting.perform attempt) start rounds delay world
    ∃ events, wait.world.events = world.events ++ events ∧
      Rounds attempt waitingOn world.clock.interludes world.ring wait.verdict wait.trace events
        wait.world.ring := by
  -- Each round starts in the world that the one before has left, with another delay.
  induction rounds generalizing delay world with
  | zero => exact ⟨[], (List.append_nil _).symm, .unsettled _ _⟩
  | succ rounds ih =>
      obtain ⟨ring, history, clock, interludes⟩ := world
      obtain ⟨reading, _, later, hround⟩ :=
        retry_succ timepiece pacing timeout waitingOn start rounds delay clock interludes
      dsimp only at hround ⊢
      rw [hround]
      split
      · exact ⟨[], (List.append_nil _).symm, .gaveUp _ _ reading⟩
      split
      · next hfails =>
        obtain ⟨events, hevents, hrounds⟩ := ih (pacing.nextDelay delay) _
        rw [events_round, List.append_assoc] at hevents
        exact ⟨_, hevents, .again reading _ rfl rfl hfails hrounds⟩
      · next hends =>
        rw [Bool.not_eq_true] at hends
        exact ⟨_, events_round _ history _ _ _, .settled reading _ rfl rfl hends⟩

theorem run_waited (pacing : Pacing) (timeout : Duration) (waitingOn : Fault)
    (attempt : Ring α → Outcome α (Except Fault β)) (rounds : Nat) (ring : Ring α)
    (surroundings : Surroundings α κ) :
    let wait := Wait.run (clockwork timepiece) pacing timeout waitingOn
      (Waiting.perform attempt) rounds ⟨ring, [], surroundings⟩
    Waited attempt waitingOn pacing timeout surroundings.interludes ring wait.verdict wait.trace
      wait.world.events wait.world.ring := by
  obtain ⟨clock, interludes⟩ := surroundings
  let tried := attempt ring
  let first : Waiting α (Surroundings α κ) :=
    ⟨tried.ring, tried.events.reverse ++ [], ⟨(timepiece.now clock).2, interludes⟩⟩
  have hfirst : first.events = tried.events := by simp [first, Waiting.events]
  by_cases hends : failsWith waitingOn tried.result = false ∨ timeout.isZero = true
  · have hwait : Waited attempt waitingOn pacing timeout interludes ring _ _ _ _ :=
      .atOnce rfl hends
    rw [Wait.run_of_settled hends]
    rw [← hfirst] at hwait
    exact hwait
  · rw [not_or, Bool.not_eq_false, Bool.not_eq_true] at hends
    obtain ⟨hfails, hwaits⟩ := hends
    by_cases hpacing : pacing.Valid
    · obtain ⟨events, hevents, hrounds⟩ := retry_rounds timepiece pacing timeout waitingOn attempt
        (timepiece.now clock).1 rounds pacing.interval first
      have hwait : Waited attempt waitingOn pacing timeout interludes ring _ _ _ _ :=
        .later rfl hfails hwaits hpacing hrounds
      rw [Wait.run_of_valid hfails hwaits hpacing]
      rw [← hfirst, ← hevents] at hwait
      exact hwait
    · have hwait : Waited attempt waitingOn pacing timeout interludes ring _ _ _ _ :=
        .badPacing rfl hfails hwaits hpacing
      rw [Wait.run_of_badPacing hfails hwaits hpacing]
      rw [← hfirst] at hwait
      exact hwait

end

/-! ## The end of a wait -/

/-- What a waiting call adds to a wait, by the verdict: the events, and the ring it leaves. -/
inductive Concluded (operation : Operation) (waitingOn : Fault) (line : UInt32)
    (timeout : Duration) :
    Verdict β → Ring α → List (Event α) → Ring α → Prop where
  | moved (result : β) (ring : Ring α) :
      Concluded operation waitingOn line timeout (.settled (.ok result)) ring [] ring
  | failed (fault : Fault) (ring : Ring α) :
      Concluded operation waitingOn line timeout (.settled (.error fault)) ring
        [.failed operation fault line] { ring with latch := .ofFailure operation fault line }
  | gaveUp (ring : Ring α) :
      Concluded operation waitingOn line timeout .gaveUp ring
        [.timedOut timeout waitingOn, .failed operation .timedOut line]
        { ring with latch := .ofFailure operation .timedOut line }
  | unsettled (ring : Ring α) : Concluded operation waitingOn line timeout .unsettled ring [] ring

theorem concludeWait_concluded {ρ : Type} (operation : Operation) (waitingOn : Fault)
    (line : UInt32) (timeout : Duration) (wait : Wait β ρ (Waiting α κ)) :
    let ended := Ring.concludeWait operation waitingOn line timeout wait
    ended.verdict = wait.verdict ∧ ended.trace = wait.trace ∧
      ∃ closing, ended.world.events = wait.world.events ++ closing ∧
        Concluded operation waitingOn line timeout wait.verdict wait.world.ring closing
          ended.world.ring := by
  rcases wait with ⟨(fault | result) | _ | _, trace, world⟩
  · exact ⟨rfl, rfl, _, Waiting.events_fail operation fault line world, .failed fault world.ring⟩
  · exact ⟨rfl, rfl, [], (List.append_nil _).symm, .moved result world.ring⟩
  · refine ⟨rfl, rfl, [.timedOut timeout waitingOn, .failed operation .timedOut line], ?_,
      .gaveUp world.ring⟩
    simp [Ring.concludeWait]
  · exact ⟨rfl, rfl, [], (List.append_nil _).symm, .unsettled world.ring⟩

inductive WaitingCall (attempt : Ring α → Outcome α (Except Fault β)) (operation : Operation)
    (waitingOn : Fault) (line : UInt32) (timeout : Duration) (interludes : List (Interlude α))
    (ring : Ring α) :
    Verdict β → List (Beat β (List (Answer α))) → List (Event α) → Ring α → Prop where
  | intro {verdict : Verdict β} {trace : List (Beat β (List (Answer α)))}
      {events closing : List (Event α)} {middle final : Ring α}
      (hwaited : Waited attempt waitingOn ring.pacing timeout interludes ring verdict trace events
        middle)
      (hconcluded : Concluded operation waitingOn line timeout verdict middle closing final) :
      WaitingCall attempt operation waitingOn line timeout interludes ring verdict trace
        (events ++ closing) final

section

variable (timepiece : Clock κ ι Unit) (ring : Ring α) (timeout : Duration) (rounds : Nat)
  (surroundings : Surroundings α κ) (line : UInt32)

theorem waitingCall_concludeWait (operation : Operation) (waitingOn : Fault)
    (attempt : Ring α → Outcome α (Except Fault β)) :
    let wait := Ring.concludeWait operation waitingOn line timeout
      (Wait.run (Surroundings.clockwork timepiece) ring.pacing timeout waitingOn
        (Waiting.perform attempt) rounds ⟨ring, [], surroundings⟩)
    WaitingCall attempt operation waitingOn line timeout surroundings.interludes ring
      wait.verdict wait.trace wait.world.events wait.world.ring := by
  have hwaited := run_waited timepiece ring.pacing timeout waitingOn attempt rounds ring
    surroundings
  obtain ⟨hverdict, htrace, closing, hevents, hconcluded⟩ := concludeWait_concluded operation
    waitingOn line timeout (Wait.run (Surroundings.clockwork timepiece) ring.pacing timeout
      waitingOn (Waiting.perform attempt) rounds ⟨ring, [], surroundings⟩)
  intro wait
  rw [hverdict, htrace, hevents]
  exact .intro hwaited hconcluded

theorem waitingCall_insertWithin (item : α) :
    let wait := ring.insertWithin item timeout (Surroundings.clockwork timepiece) rounds
      surroundings line
    WaitingCall (·.offer item ring.overwrite) .insertWithin .full line timeout
      surroundings.interludes ring wait.verdict wait.trace wait.world.events wait.world.ring :=
  waitingCall_concludeWait timepiece ring timeout rounds surroundings line .insertWithin .full _

theorem waitingCall_removeWithin :
    let wait := ring.removeWithin timeout (Surroundings.clockwork timepiece) rounds
      surroundings line
    WaitingCall Ring.take .removeWithin .empty line timeout surroundings.interludes ring
      wait.verdict wait.trace wait.world.events wait.world.ring :=
  waitingCall_concludeWait timepiece ring timeout rounds surroundings line .removeWithin .empty _

end

end SpscRing
