import SpscRing.Proofs.Attempt
/-!
# What attempts do not look at

An attempt goes by the memory and the indices of a ring, and by the mode that it is handed. The
mode of the ring itself, its record of failures and its counters may be others: the attempt
ends in the same way, and counts on from whatever it finds.
-/

namespace SpscRing

inductive Counters.IsCount : (Counters → Counters) → Prop where
  | insert (occupancy : UInt64) : IsCount (.countInsert occupancy)
  | remove : IsCount .countRemove
  | overflow : IsCount .countOverflow
  | underflow : IsCount .countUnderflow

/-- What stands for the mode and the diagnostics of a ring. Counting goes on behind it. -/
structure Disguise where
  overwrite : Bool → Bool
  latch : FaultLatch → FaultLatch
  recorder : Recorder → Recorder
  record_recorder : ∀ {change : Counters → Counters} (kept : Recorder), Counters.IsCount change →
    (recorder kept).record change = recorder (kept.record change)

def Ring.disguised {α : Type} (disguise : Disguise) (ring : Ring α) : Ring α :=
  { ring with
    overwrite := disguise.overwrite ring.overwrite
    latch := disguise.latch ring.latch
    recorder := disguise.recorder ring.recorder }

def Outcome.disguised {α β : Type} (disguise : Disguise) (outcome : Outcome α β) : Outcome α β :=
  { outcome with ring := outcome.ring.disguised disguise }

namespace Ring

variable {α : Type} (disguise : Disguise) (ring : Ring α)

theorem disguised_count {change : Counters → Counters} (hcount : Counters.IsCount change) :
    (ring.disguised disguise).count change = (ring.count change).disguised disguise :=
  congrArg (fun recorder => { ring.disguised disguise with recorder })
    (disguise.record_recorder ring.recorder hcount)

theorem disguised_release :
    (ring.disguised disguise).release = ring.release.disguised disguise := by
  rw [release_eq, release_eq]
  rfl

theorem disguised_accept (item : α) :
    (ring.disguised disguise).accept item = (ring.accept item).disguised disguise := by
  simp only [accept, Outcome.disguised, disguised, disguise.record_recorder _ (.insert _)]
  rfl

theorem disguised_offer (item : α) (overwrite : Bool) :
    (ring.disguised disguise).offer item overwrite =
      (ring.offer item overwrite).disguised disguise := by
  have hstorage : (ring.disguised disguise).storage = ring.storage := rfl
  have hrange : (ring.disguised disguise).inRange = ring.inRange := rfl
  have hspan : (ring.disguised disguise).span = ring.span := rfl
  unfold offer
  rw [hstorage, hrange, hspan]
  cases ring.storage.slots? with
  | error fault => rfl
  | ok slots =>
      simp only [evict_eq_release, disguised_count disguise _ .overflow, disguised_release,
        disguised_accept]
      split
      · rfl
      · split
        · split <;> rfl
        · rfl

theorem disguised_take : (ring.disguised disguise).take = ring.take.disguised disguise := by
  have hstorage : (ring.disguised disguise).storage = ring.storage := rfl
  have hrange : (ring.disguised disguise).inRange = ring.inRange := rfl
  have hproducer : (ring.disguised disguise).producer = ring.producer := rfl
  have hconsumer : (ring.disguised disguise).consumer = ring.consumer := rfl
  unfold take
  rw [hstorage, hrange]
  cases ring.storage.slots? with
  | error fault => rfl
  | ok slots =>
      simp only [disguised_count disguise _ .underflow, disguised_count disguise _ .remove,
        disguised_release, hproducer, hconsumer]
      split
      · rfl
      · split <;> rfl

theorem disguised_integrity :
    (ring.disguised disguise).integrity = ring.integrity.disguised disguise := by
  have hstorage : (ring.disguised disguise).storage = ring.storage := rfl
  have hrange : (ring.disguised disguise).inRange = ring.inRange := rfl
  unfold integrity
  rw [hstorage, hrange]
  cases ring.storage.slots? with
  | error fault => rfl
  | ok slots =>
      dsimp only
      split <;> rfl

end Ring

theorem Outcome.disguised_tracked {α β : Type} {disguise : Disguise}
    (hlatch : ∀ latch, disguise.latch latch = latch) (outcome : Outcome α (Except Fault β))
    (operation : Operation) (line : UInt32) :
    (outcome.disguised disguise).tracked operation line =
      (outcome.tracked operation line).disguised disguise := by
  obtain ⟨_ | _, ring, events⟩ := outcome
  · simp only [tracked, disguised, Ring.disguised, hlatch]
  · rfl

end SpscRing
