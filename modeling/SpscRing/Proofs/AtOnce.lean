import SpscRing.Proofs.BulkTransfer
import SpscRing.Proofs.Failures
/-!
# Timed calls that need not wait

A timed call with no time to wait, or with nothing to wait for, is the plain call: it ends with
its first attempt, which is the attempt of the plain call. A failure is recorded under its own
name, and that is all that it adds. It looks at the clock once and never sleeps, so nobody else
gets a turn, and it does not come to look at the pacing.
-/

namespace SpscRing

open Surroundings

variable {α β κ ι : Type}

/-- A wait that is a plain call, on any clock and with whatever others would have done. -/
structure AtOnce (timepiece : Clock κ ι Unit) (surroundings : Surroundings α κ)
    (operation : Operation) (plain : Outcome α (Except Fault β))
    (wait : Wait β (List (Answer α)) (Waiting α (Surroundings α κ))) : Prop where
  verdict : wait.verdict = .settled plain.result
  trace : wait.trace = [.now, .attempt plain.result]
  /-- Only the record of failures may differ. -/
  ring : wait.world.ring.seen true = plain.ring.seen true
  unfailed : ∀ result, plain.result = .ok result →
    wait.world.ring.lastFailure = plain.ring.lastFailure
  failed : ∀ fault, plain.result = .error fault →
    wait.world.ring.lastFailure = { plain.ring.lastFailure with operation := some operation }
  log : logLines wait.world.events = logLines plain.events
  /-- The clock was asked for the time and no more, and nobody else had a turn. -/
  clock : wait.world.clock = ⟨(timepiece.now surroundings.clock).2, surroundings.interludes⟩

section

variable (timepiece : Clock κ ι Unit) (surroundings : Surroundings α κ) {timeout : Duration}
  (rounds : Nat) (line : UInt32)

/-- A wait that its first attempt ends is the plain call that makes the same attempt. -/
theorem atOnce_of (attempt : Ring α → Outcome α (Except Fault β)) {waitingOn : Fault}
    {ring : Ring α} (operation named : Operation)
    (hends : timeout.isZero = true ∨ (attempt ring).result ≠ .error waitingOn) :
    AtOnce timepiece surroundings operation ((attempt ring).tracked named line)
      (Ring.concludeWait operation waitingOn line timeout
        (Wait.run (clockwork timepiece) ring.pacing timeout waitingOn (Waiting.perform attempt)
          rounds ⟨ring, [], surroundings⟩)) := by
  have hfirst : failsWith waitingOn (attempt ring).result = false ∨ timeout.isZero = true := by
    rw [or_comm, ← Bool.not_eq_true, failsWith_iff]
    exact hends
  rw [Wait.run_of_settled hfirst]
  obtain ⟨clock, interludes⟩ := surroundings
  simp only [clockwork, Waiting.perform]
  generalize attempt ring = outcome
  obtain ⟨fault | result, next, events⟩ := outcome
  · constructor
    case verdict | trace | ring | clock => rfl
    case unfailed =>
      intro _ hresult
      cases hresult
    case failed =>
      intro cause hcause
      cases hcause
      have hrecord : ∀ name : Operation,
          ({ next with latch := .ofFailure name fault line } : Ring α).lastFailure =
            .ofFailure name fault line := fun name => FaultLatch.report_ofFailure name fault line
      show ({ next with latch := .ofFailure operation fault line } : Ring α).lastFailure =
        { ({ next with latch := .ofFailure named fault line } : Ring α).lastFailure with
          operation := some operation }
      rw [hrecord, hrecord]
      rfl
    case log =>
      have hrecord : ∀ name, logLines [(.failed name fault line : Event α)] = [] := fun _ => rfl
      simp [Ring.concludeWait, Waiting.events, Waiting.fail, Outcome.tracked, hrecord]
  · constructor
    case verdict | trace | ring | clock => rfl
    case unfailed => exact fun _ _ => rfl
    case failed =>
      intro _ hcause
      cases hcause
    case log => simp [Ring.concludeWait, Waiting.events, Outcome.tracked]

end

/-- A timed call that has no time to wait, or nothing to wait for, does what the plain call does,
on any ring, in order or not, with any clock, any pacing and whatever others would have done. It
gives the same result, leaves the same ring and the same log, and records a failure that differs
in the name of the operation alone. Inserts have nothing to wait for on any ring of two slots or
more that drops its oldest item. -/
theorem timed_call_at_once (timepiece : Clock κ ι Unit) (surroundings : Surroundings α κ)
    (ring : Ring α) (timeout : Duration) (rounds : Nat) (line : UInt32) :
    let clock := clockwork timepiece
    (∀ item, timeout.isZero = true ∨ (ring.insert item line).result ≠ .error .full →
        AtOnce timepiece surroundings .insertWithin (ring.insert item line)
          (ring.insertWithin item timeout clock rounds surroundings line)) ∧
      (ring.overwrite = true → ring.inRange = true → 2 ≤ ring.capacity.toNat →
        ∀ item, (ring.insert item line).result ≠ .error .full) ∧
      (timeout.isZero = true ∨ (ring.remove line).result ≠ .error .empty →
        AtOnce timepiece surroundings .removeWithin (ring.remove line)
          (ring.removeWithin timeout clock rounds surroundings line)) := by
  dsimp only
  refine ⟨fun item hends => ?insert, fun hmode hrange hmany item => ?dropping, fun hends => ?remove⟩
  case insert =>
    rw [Ring.insert, Outcome.result_tracked] at hends
    exact atOnce_of timepiece surroundings rounds line (·.offer item ring.overwrite) .insertWithin
      .insert hends
  case dropping =>
    rw [Ring.insert, Outcome.result_tracked, hmode]
    obtain ⟨-, hok, -⟩ | ⟨hkeeping, -⟩ := Ring.absorbs_offer hrange hmany item true
    · rw [hok]
      intro hfull
      cases hfull
    · cases hkeeping
  case remove =>
    rw [Ring.remove, Outcome.result_tracked] at hends
    exact atOnce_of timepiece surroundings rounds line Ring.take .removeWithin .remove hends

open SpscRing.Ring in
theorem timed_call_at_once_brimful :
    let clock := clockwork VirtualClock.timepiece
    let start : Surroundings Nat VirtualClock := ⟨.exact .zero, [SharedCall.runAll [.remove 2]]⟩
    (Duration.zero.isZero = true ∧ (brimful.insert 7 6).result = .error .full ∧
        AtOnce VirtualClock.timepiece start .insertWithin (brimful.insert 7 6)
          (brimful.insertWithin 7 .zero clock 9 start 6)) ∧
      (spilling.overwrite = true ∧ spilling.inRange = true ∧ 2 ≤ spilling.capacity.toNat ∧
        AtOnce VirtualClock.timepiece start .insertWithin (spilling.insert 7 6)
          (spilling.insertWithin 7 (.ofMillis 3) clock 9 start 6)) ∧
      ((brimful.remove 6).result ≠ .error .empty ∧
        AtOnce VirtualClock.timepiece start .removeWithin (brimful.remove 6)
          (brimful.removeWithin (.ofMillis 3) clock 9 start 6)) := by
  intro clock start
  have hzero : Duration.zero.isZero = true := rfl
  have hmany : 2 ≤ spilling.capacity.toNat := by decide
  have hheld : (brimful.remove 6).result ≠ .error .empty := by decide
  obtain ⟨htried, -⟩ := timed_call_at_once VirtualClock.timepiece start brimful .zero 9 6
  obtain ⟨hinsert, hnever, -⟩ :=
    timed_call_at_once VirtualClock.timepiece start spilling (.ofMillis 3) 9 6
  obtain ⟨-, -, hremove⟩ :=
    timed_call_at_once VirtualClock.timepiece start brimful (.ofMillis 3) 9 6
  exact ⟨⟨hzero, rfl, htried 7 (.inl hzero)⟩,
    ⟨rfl, rfl, hmany, hinsert 7 (.inr (hnever rfl rfl hmany 7))⟩, hheld, hremove (.inr hheld)⟩

end SpscRing
