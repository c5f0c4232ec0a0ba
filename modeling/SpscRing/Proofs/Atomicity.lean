import SpscRing.Proofs.Decision
/-!
# A call that fails changes nothing

Whatever the state of a ring: a call that fails leaves its memory, its indices and its
settings alone, and so does a wait that fails, however often it tried. The call records
its failure, and counts each attempt that met a full ring or an empty one.
-/

namespace SpscRing

def Ring.failed {α : Type} (ring : Ring α) (operation : Operation) (fault : Fault)
    (line : UInt32) (waitingOn : Fault) (times : Nat) : Ring α :=
  { ring.rejected waitingOn times with latch := .ofFailure operation fault line }

/-- If a call failed, it left the ring as it was with the failure recorded, and a rejection
counted when it failed with the fault that a wait would have waited out. -/
def Outcome.FailsCleanly {α β : Type} (operation : Operation) (waitingOn : Fault) (line : UInt32)
    (ring : Ring α) (outcome : Outcome α (Except Fault β)) : Prop :=
  ∀ fault, outcome.result = .error fault →
    outcome.ring =
      ring.failed operation fault line waitingOn (if fault = waitingOn then 1 else 0)

/-- If a waiting call failed, it left the ring as it was with the failure recorded, and as
many rejections counted as there were among its attempts. -/
def Wait.FailsCleanly {α β κ ρ : Type} (operation : Operation) (waitingOn : Fault)
    (line : UInt32) (ring : Ring α) (wait : Wait β ρ (Waiting α κ)) : Prop :=
  ∀ fault, wait.verdict.result? = some (.error fault) →
    wait.world.ring =
      ring.failed operation fault line waitingOn (rejections waitingOn wait.outcomes)

section

variable {α β : Type} {operation : Operation} {waitingOn fault : Fault} {line : UInt32}
  {ring final : Ring α}

theorem Outcome.ring_tracked {outcome : Outcome α (Except Fault β)}
    (hfails : (outcome.tracked operation line).result = .error fault) :
    (outcome.tracked operation line).ring =
      { outcome.ring with latch := .ofFailure operation fault line } := by
  obtain ⟨result, next, events⟩ := outcome
  rw [result_tracked] at hfails
  cases hfails
  rfl

theorem Outcome.Spares.failsCleanly {outcome : Outcome α (Except Fault β)}
    (hspares : outcome.Spares waitingOn ring) :
    (outcome.tracked operation line).FailsCleanly operation waitingOn line ring := by
  intro fault hfails
  rw [Outcome.ring_tracked hfails]
  rw [Outcome.result_tracked] at hfails
  rw [hspares hfails, Ring.failed]

theorem WaitingCall.ring_of_error {attempt : Ring α → Outcome α (Except Fault β)}
    {timeout : Duration} {verdict : Verdict β} {trace : List (Beat β (List (Answer α)))}
    {events : List (Event α)} (hattempt : Repeatable attempt waitingOn)
    (hfailed : verdict.result? = some (.error fault))
    (hcall : WaitingCall attempt operation waitingOn line timeout [] ring verdict trace events
      final) :
    final = ring.failed operation fault line waitingOn
      (rejections waitingOn (trace.filterMap Beat.outcome?)) := by
  obtain ⟨hwaited, hconcluded⟩ := hcall
  rw [Ring.failed, ← hwaited.ring_of_error hattempt hfailed]
  cases hconcluded with
  | failed | gaveUp =>
      cases hfailed
      rfl
  | moved | unsettled => cases hfailed

end

namespace Ring

variable {α κ ι : Type}

theorem setPacing_of_error {ring : Ring α} {pacing : Pacing} {line : UInt32} {fault : Fault}
    (hfails : (ring.setPacing pacing line).result = .error fault) :
    (ring.setPacing pacing line).ring =
      { ring with latch := .ofFailure .setPacing fault line } := by
  have hend := paced ring pacing line
  generalize ring.setPacing pacing line = outcome at hend hfails ⊢
  cases hend with
  | installed => cases hfails
  | refused =>
      cases hfails
      rfl

/-- A bulk remove fails when it takes nothing, and then does not touch its buffer. -/
theorem removeMany_of_error {ring : Ring α} {buffer : List α} {line : UInt32} {fault : Fault}
    (hfails : (ring.removeMany buffer line).result.1 = .error fault) :
    ((ring.takeAll buffer.length).tracked .removeMany line).result = .error fault ∧
      (ring.removeMany buffer line).result.2 = buffer := by
  revert hfails
  rw [removeMany_eq_takeAll]
  generalize (ring.takeAll buffer.length).tracked .removeMany line = outcome
  intro hfails
  obtain ⟨cause | items, next, events⟩ := outcome
  · exact ⟨congrArg Except.error (Except.error.inj hfails), rfl⟩
  · cases hfails

/-- A call that fails, on a ring in any state, leaves it as it was but for its record of the
failure and its counts of rejected attempts. A bulk call that fails has moved nothing, and
not touched its buffer; a waiting call is taken without the calls of others. -/
theorem failure_is_atomic (ring : Ring α) (line : UInt32) (timepiece : Clock κ ι Unit)
    (timeout : Duration) (rounds : Nat) (clock : κ) :
    (∀ item, (ring.insert item line).FailsCleanly .insert .full line ring) ∧
      (ring.remove line).FailsCleanly .remove .empty line ring ∧
      (∀ items,
        (ring.insertMany items line).FailsCleanly .insertMany .full line ring ∧
          ∀ fault, (ring.insertMany items line).result = .error fault →
            transfers (ring.insertMany items line).events = []) ∧
      (∀ buffer,
        ((ring.removeMany buffer line).map Prod.fst).FailsCleanly .removeMany .empty line ring ∧
          ∀ fault, (ring.removeMany buffer line).result.1 = .error fault →
            (ring.removeMany buffer line).result.2 = buffer ∧
              transfers (ring.removeMany buffer line).events = []) ∧
      (∀ offset fault, (ring.peek offset line).result = .error fault →
        (ring.peek offset line).ring = { ring with latch := .ofFailure .peek fault line }) ∧
      (∀ fault, (ring.check line).result = .error fault →
        (ring.check line).ring = { ring with latch := .ofFailure .check fault line }) ∧
      (∀ pacing fault, (ring.setPacing pacing line).result = .error fault →
        (ring.setPacing pacing line).ring =
          { ring with latch := .ofFailure .setPacing fault line }) ∧
      (∀ item,
        (ring.insertWithin item timeout (Surroundings.clockwork timepiece) rounds ⟨clock, []⟩
          line).FailsCleanly .insertWithin .full line ring) ∧
      (ring.removeWithin timeout (Surroundings.clockwork timepiece) rounds ⟨clock, []⟩
        line).FailsCleanly .removeWithin .empty line ring := by
  refine ⟨?insert, ?remove, ?insertMany, ?removeMany, ?peek, ?check, ?setPacing, ?insertWithin,
    ?removeWithin⟩
  case insert =>
    intro item
    exact (ring.spares_offer item ring.overwrite).failsCleanly
  case remove => exact ring.spares_take.failsCleanly
  case insertMany =>
    intro items
    constructor
    · exact (ring.spares_offerAll items).failsCleanly
    · intro fault hfails
      rw [transfers_insertMany, hfails]
      rfl
  case removeMany =>
    intro buffer
    constructor
    · intro fault hfails
      show (ring.removeMany buffer line).ring = _
      rw [ring_removeMany]
      exact (ring.spares_takeAll buffer.length).failsCleanly fault (removeMany_of_error hfails).1
    · intro fault hfails
      refine ⟨(removeMany_of_error hfails).2, ?_⟩
      rw [transfers_removeMany, hfails]
      rfl
  case peek =>
    intro offset fault hfails
    exact Outcome.ring_tracked hfails
  case check =>
    intro fault hfails
    rw [check, Outcome.ring_tracked hfails, ring_integrity]
  case setPacing =>
    intro pacing fault hfails
    exact setPacing_of_error hfails
  case insertWithin =>
    intro item fault hfailed
    exact (SpscRing.waitingCall_insertWithin timepiece ring timeout rounds ⟨clock, []⟩ line
      item).ring_of_error (repeatable_offer item ring.overwrite) hfailed
  case removeWithin =>
    intro fault hfailed
    exact (SpscRing.waitingCall_removeWithin timepiece ring timeout rounds ⟨clock, []⟩
      line).ring_of_error repeatable_take hfailed

def spent : Ring Nat := { brimful with consumer := 1 }

theorem failure_is_atomic_small :
    let clock := Surroundings.clockwork VirtualClock.timepiece
    let inserted := brimful.insertWithin 7 (.ofMillis 3) clock 9 ⟨.exact .zero, []⟩ 6
    let removed := spent.removeWithin .zero clock 9 ⟨.exact .zero, []⟩ 6
    ((brimful.insert 7 6).result = .error .full ∧
        (brimful.insert 7 6).ring = brimful.failed .insert .full 6 .full 1) ∧
      ((brimful.insertMany [7, 8] 6).result = .error .full ∧
        (brimful.insertMany [7, 8] 6).ring = brimful.failed .insertMany .full 6 .full 1 ∧
        transfers (brimful.insertMany [7, 8] 6).events = []) ∧
      ((brimful.peek 1 6).result = .error .badOffset ∧
        (brimful.peek 1 6).ring = { brimful with latch := .ofFailure .peek .badOffset 6 }) ∧
      ((brimful.setPacing (.fixed .zero) 6).result = .error .badPacing ∧
        (brimful.setPacing (.fixed .zero) 6).ring =
          { brimful with latch := .ofFailure .setPacing .badPacing 6 }) ∧
      (inserted.verdict.result? = some (.error .timedOut) ∧
        inserted.world.ring = brimful.failed .insertWithin .timedOut 6 .full 4) ∧
      ((spent.remove 6).result = .error .empty ∧
        (spent.remove 6).ring = spent.failed .remove .empty 6 .empty 1) ∧
      ((spent.removeMany [1, 2] 6).result = (.error .empty, [1, 2]) ∧
        (spent.removeMany [1, 2] 6).ring = spent.failed .removeMany .empty 6 .empty 1) ∧
      (removed.verdict.result? = some (.error .empty) ∧
        removed.world.ring = spent.failed .removeWithin .empty 6 .empty 1) ∧
      (astray.check 6).result = .error .corrupted ∧
        (astray.check 6).ring = { astray with latch := .ofFailure .check .corrupted 6 } := by
  intro clock inserted removed
  obtain ⟨hinsert, _, hinsertMany, _, hpeek, _, hsetPacing, hinsertWithin, _⟩ :=
    failure_is_atomic brimful 6 VirtualClock.timepiece (.ofMillis 3) 9 (.exact .zero)
  obtain ⟨_, hremove, _, hremoveMany, _, _, _, _, hremoveWithin⟩ :=
    failure_is_atomic spent 6 VirtualClock.timepiece .zero 9 (.exact .zero)
  obtain ⟨_, _, _, _, _, hcheck, _⟩ :=
    failure_is_atomic astray 6 VirtualClock.timepiece .zero 9 (.exact .zero)
  exact ⟨⟨rfl, hinsert 7 .full rfl⟩,
    ⟨rfl, (hinsertMany [7, 8]).1 .full rfl, (hinsertMany [7, 8]).2 .full rfl⟩,
    ⟨rfl, hpeek 1 .badOffset rfl⟩, ⟨rfl, hsetPacing (.fixed .zero) .badPacing rfl⟩,
    ⟨rfl, hinsertWithin 7 .timedOut rfl⟩, ⟨rfl, hremove .empty rfl⟩,
    ⟨rfl, (hremoveMany [1, 2]).1 .empty rfl⟩, ⟨rfl, hremoveWithin .empty rfl⟩,
    rfl, hcheck .corrupted rfl⟩

end Ring

end SpscRing
