import Mathlib.Data.Nat.ModEq
import SpscRing.Proofs.Accounting
/-!
# The consumer's index does not come back

Both sides may move the consumer's index, each from the value it has seen. That is safe as long as
the index is not back at that value after items have left. Indices run modulo the lap, and every
item that leaves moves the index on by one, whichever side took it off: so the index is back just
when the items that left make up whole laps, on a ring of two slots as on any other.
-/

namespace SpscRing

/-- Going on from a place on a circle leads back to it after whole turns, and never otherwise. -/
theorem add_mod_eq_self_iff {place turn steps : Nat} (hplace : place < turn) :
    (place + steps) % turn = place ↔ turn ∣ steps :=
  calc (place + steps) % turn = place
    _ ↔ place + steps ≡ place [MOD turn] := by rw [Nat.ModEq, Nat.mod_eq_of_lt hplace]
    _ ↔ turn ∣ steps := Nat.add_modEq_left_iff

namespace Ring

variable {α : Type} {start ring : Ring α} {events : List (Event α)}

section

variable (hrange : start.inRange = true) (hsince : Since start events ring)

include hrange hsince

/-- The index is back where it started just when whole laps of items have left. -/
theorem Since.consumer_eq_iff :
    ring.consumer = start.consumer ↔ start.lap.toNat ∣ (departures events).length := by
  obtain ⟨_, hconsumer, _⟩ := inRange_iff.mp hrange
  rw [UInt64.lt_iff_toNat_lt] at hconsumer
  rw [← UInt64.toNat_inj, hsince.consumer, add_mod_eq_self_iff hconsumer]

theorem Since.consumer_ne (hsome : 0 < (departures events).length)
    (hfew : (departures events).length < start.lap.toNat) : ring.consumer ≠ start.consumer := by
  rw [ne_eq, hsince.consumer_eq_iff hrange]
  intro hdvd
  have hle := Nat.le_of_dvd hsome hdvd
  omega

/-- A swap from a value that was seen before items left finds another value there. -/
theorem Since.swapConsumer?_of_left (next : UInt64) (hsome : 0 < (departures events).length)
    (hfew : (departures events).length < start.lap.toNat) :
    ring.swapConsumer? start.consumer next = none := by
  rw [swapConsumer?, if_neg (hsince.consumer_ne hrange hsome hfew)]

/-- As long as nothing has left, the swap takes off the oldest item, if there is one. -/
theorem Since.swapConsumer?_of_none_left (hnone : (departures events).length = 0) :
    ∃ moved, ring.swapConsumer? start.consumer (Index.next start.consumer start.lap) = some moved ∧
      moved.consumer.toNat = (start.consumer.toNat + 1) % start.lap.toNat ∧
      (0 < ring.occupancy.toNat → moved.inRange = true ∧ moved.contents = ring.contents.tail) := by
  have hsame : ring.consumer = start.consumer := by
    rw [hsince.consumer_eq_iff hrange, hnone]
    exact Nat.dvd_zero _
  obtain ⟨_, hconsumer, _⟩ := inRange_iff.mp hrange
  rw [← hsame, ← hsince.lap_eq]
  refine ⟨ring.release, ?_, ?_, ?_⟩
  · rw [swapConsumer?_self, release_eq]
  · rw [consumer_release]
    apply Index.toNat_next_mod
    rwa [hsame, hsince.lap_eq]
  · intro hheld
    rw [occupancy_of_inRange hsince.inRange] at hheld
    exact contents_release hsince.inRange hheld

end

end Ring

namespace Session

open SpscRing.Ring

variable {α : Type}

/-- From a ring in order on, and as long as it is not set up again and nobody else writes its
indices: at every moment the consumer's index has moved on by the items that left, which are those
handed to the consumer and those dropped. It is back where it was just when whole laps of them have
left. So while at least one has left and less than a lap, swapping it from the old value fails and
changes nothing; and before any has left, the swap moves it on by one item. -/
theorem consumer_recurs_by_laps (session : Session α) (hrange : session.ring.inRange = true)
    (calls : List (Call α)) (hsteady : ∀ call ∈ calls, call.steady = true) :
    let seen := session.ring.consumer
    let lap := session.ring.lap
    let run := session.performAll calls
    let journal := run.1.flatMap Step.allEvents
    let moved := Call.transfersAll calls (run.1.map Step.reply)
    Course (Change false) session.ring journal run.2.ring ∧
      (departures journal).length =
        (moved.filterMap Transfer.delivered?).length + countLines "evicted oldest item" journal ∧
      ∀ events ring, Course (Change false) session.ring events ring →
        let left := (departures events).length
        ring.lap = lap ∧
          ring.consumer.toNat = (seen.toNat + left) % lap.toNat ∧
          (ring.consumer = seen ↔ lap.toNat ∣ left) ∧
          (0 < left → left < lap.toNat →
            ring.consumer ≠ seen ∧ ring.swapConsumer? seen (Index.next seen lap) = none) ∧
          (left = 0 →
            ∃ swapped, ring.swapConsumer? seen (Index.next seen lap) = some swapped ∧
              swapped.consumer.toNat = (seen.toNat + 1) % lap.toNat ∧
              (0 < ring.occupancy.toNat →
                swapped.inRange = true ∧ swapped.contents = ring.contents.tail)) := by
  intro seen lap run journal moved
  refine ⟨session.course_of_steady hsteady, ?_, ?_⟩
  · rw [length_departures, countLines_evicted, session.transfers_performAll calls]
  · intro events ring hcourse left
    have hsince := hcourse.since hrange
    exact ⟨hsince.lap_eq, hsince.consumer, hsince.consumer_eq_iff hrange,
      fun hsome hfew => ⟨hsince.consumer_ne hrange hsome hfew,
        hsince.swapConsumer?_of_left hrange _ hsome hfew⟩,
      hsince.swapConsumer?_of_none_left hrange⟩

/-- Two drops on a ring of two slots. -/
theorem consumer_recurs_by_laps_brimful :
    let session : Session Nat := ⟨.brimful, [], none⟩
    let seen := session.ring.consumer
    let lap := session.ring.lap
    let calls : List (Call Nat) :=
      [.setOverwrite true, .shared (.insert 8 4), .shared (.insert 9 5)]
    let run := session.performAll calls
    let journal := run.1.flatMap Step.allEvents
    session.ring.inRange = true ∧ (∀ call ∈ calls, call.steady = true) ∧
      session.ring.capacity = 2 ∧ (departures journal).length = 2 ∧
      countLines "evicted oldest item" journal = 2 ∧
      run.2.ring.consumer ≠ seen ∧ run.2.ring.swapConsumer? seen (Index.next seen lap) = none ∧
      ∃ swapped, session.ring.swapConsumer? seen (Index.next seen lap) = some swapped ∧
        swapped.contents = session.ring.contents.tail := by
  intro session seen lap calls run journal
  have hrange : session.ring.inRange = true := by decide
  have hsteady : ∀ call ∈ calls, call.steady = true := by decide
  obtain ⟨hcourse, _, hmoments⟩ := session.consumer_recurs_by_laps hrange calls hsteady
  have hnumber : (departures journal).length = 2 := rfl
  have hfew : (departures journal).length < lap.toNat := by
    rw [hnumber]
    decide
  obtain ⟨_, _, _, hstale, _⟩ := hmoments journal run.2.ring hcourse
  obtain ⟨_, _, _, _, hfresh⟩ := hmoments [] session.ring .rest
  obtain ⟨swapped, hswapped, _, hcontents⟩ := hfresh rfl
  obtain ⟨hapart, hfails⟩ := hstale (by rw [hnumber]; decide) hfew
  exact ⟨hrange, hsteady, rfl, hnumber, rfl, hapart, hfails, swapped, hswapped,
    (hcontents (by decide)).2⟩

end Session

end SpscRing
