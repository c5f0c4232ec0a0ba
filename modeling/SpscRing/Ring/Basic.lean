import SpscRing.Counters
import SpscRing.Fault.Latch
import SpscRing.Event.Basic
import SpscRing.Storage
/-!
# Rings

A bounded queue between one producer and one consumer over lent memory. The ring is
empty when its two indices are equal and full one item short of its capacity, so one
slot is always left unused, and a ring with a single slot never holds anything.
-/

namespace SpscRing

structure Ring (α : Type) where
  storage : Storage α
  /-- Counts the items that came in, modulo the lap. -/
  producer : UInt64
  /-- Counts the items that left, modulo the lap. -/
  consumer : UInt64
  /-- Whether an insert into a full ring drops the oldest item. -/
  overwrite : Bool
  pacing : Pacing
  latch : FaultLatch
  recorder : Recorder

/-- What a call leaves behind: its result, the ring, and the events it caused,
oldest first. -/
structure Outcome (α β : Type) where
  result : β
  ring : Ring α
  events : List (Event α)

namespace Outcome

def fail {α β : Type} (ring : Ring α) (fault : Fault) (events : List (Event α)) :
    Outcome α (Except Fault β) :=
  ⟨.error fault, ring, events⟩

def query {α β : Type} (ring : Ring α) (result : β) : Outcome α β := ⟨result, ring, []⟩

def map {α β γ : Type} (f : β → γ) (outcome : Outcome α β) : Outcome α γ :=
  ⟨f outcome.result, outcome.ring, outcome.events⟩

def after {α β : Type} (outcome : Outcome α β) (events : List (Event α)) : Outcome α β :=
  { outcome with events := events ++ outcome.events }

/-- Record a failure on the ring; a success leaves the record alone. -/
def tracked {α β : Type} (operation : Operation) (line : UInt32)
    (outcome : Outcome α (Except Fault β)) : Outcome α (Except Fault β) :=
  match outcome with
  | ⟨.ok result, ring, events⟩ => ⟨.ok result, ring, events⟩
  | ⟨.error fault, ring, events⟩ =>
    { result := .error fault
      ring := { ring with latch := .ofFailure operation fault line }
      events := events ++ [.failed operation fault line] }

end Outcome

namespace Ring

def unbound {α : Type} (recorder : Recorder) : Ring α where
  storage := .absent
  producer := 0
  consumer := 0
  overwrite := false
  pacing := .default
  latch := .clear
  recorder := recorder

/-! ## What a ring can be asked -/

/-- The number of slots, with the one that is never filled. -/
def capacity {α : Type} (ring : Ring α) : UInt64 := ring.storage.capacity

def lap {α : Type} (ring : Ring α) : UInt64 := Index.lap ring.capacity

def span {α : Type} (ring : Ring α) : UInt64 := Index.span ring.producer ring.consumer ring.lap

/-- Whether the indices can be trusted. No index is in range of a ring without slots. -/
def inRange {α : Type} (ring : Ring α) : Bool :=
  Index.inRange ring.producer ring.consumer ring.lap ring.capacity

def lacksSlots {α : Type} (ring : Ring α) : Bool :=
  !ring.storage.isPresent || ring.capacity == 0

def occupancy {α : Type} (ring : Ring α) : UInt64 :=
  if ring.lacksSlots then 0
  else if ring.inRange then ring.span else 0

def freeSpace {α : Type} (ring : Ring α) : UInt64 :=
  if ring.lacksSlots then 0
  else if ring.inRange then ring.capacity - 1 - ring.span else 0

def isEmpty {α : Type} (ring : Ring α) : Bool := ring.occupancy == 0

def isFull {α : Type} (ring : Ring α) : Bool := ring.freeSpace == 0

theorem inRange_iff {α : Type} {ring : Ring α} :
    ring.inRange = true ↔
      ring.producer < ring.lap ∧ ring.consumer < ring.lap ∧ ring.span < ring.capacity :=
  Index.inRange_iff

theorem exists_slots_of_inRange {α : Type} {ring : Ring α} (hrange : ring.inRange = true) :
    ∃ slots, ring.storage = .lent slots := by
  cases hstorage : ring.storage with
  | lent slots => exact ⟨slots, rfl⟩
  | absent | noCells =>
      have hlt := (inRange_iff.mp hrange).1
      simp [lap, capacity, hstorage, Storage.capacity, Index.lap] at hlt

theorem lacksSlots_of_inRange {α : Type} {ring : Ring α} (hrange : ring.inRange = true) :
    ring.lacksSlots = false := by
  obtain ⟨slots, hslots⟩ := exists_slots_of_inRange hrange
  have hpos := slots.size_pos
  have hcapacity : slots.capacity ≠ 0 := by
    rw [ne_eq, ← UInt64.toNat_inj, slots.toNat_capacity, UInt64.toNat_zero]
    omega
  simp [lacksSlots, capacity, hslots, Storage.isPresent, Storage.capacity, hcapacity]

/-- Asking for slots first changes nothing, since no index is in range without them. -/
theorem occupancy_eq_ite {α : Type} (ring : Ring α) :
    ring.occupancy = if ring.inRange then ring.span else 0 := by
  cases hrange : ring.inRange with
  | false => simp [occupancy, hrange]
  | true => simp [occupancy, hrange, lacksSlots_of_inRange hrange]

theorem freeSpace_eq_ite {α : Type} (ring : Ring α) :
    ring.freeSpace = if ring.inRange then ring.capacity - 1 - ring.span else 0 := by
  cases hrange : ring.inRange with
  | false => simp [freeSpace, hrange]
  | true => simp [freeSpace, hrange, lacksSlots_of_inRange hrange]

def lastFailure {α : Type} (ring : Ring α) : Report := ring.latch.report

def counters {α : Type} (ring : Ring α) : Counters := ring.recorder.snapshot

/-! ## Control -/

def rebind {α : Type} (ring : Ring α) (storage : Storage α) : Ring α where
  storage := storage
  producer := 0
  consumer := 0
  overwrite := false
  pacing := .default
  latch := .clear
  recorder := ring.recorder.reset

/-- Set the ring up afresh. Without slots that fails, and leaves a ring on which
everything fails. -/
def setUp {α : Type} (ring : Ring α) (storage : Storage α) (line : UInt32) :
    Outcome α (Except Fault Unit) :=
  let fresh := ring.rebind storage
  match storage with
  | .absent => (Outcome.fail fresh .noStorage [.boundToNothing]).tracked .setUp line
  | .noCells => (Outcome.fail fresh .emptyStorage [.boundToNoCells]).tracked .setUp line
  | .lent slots => ⟨.ok (), fresh, [.bound slots.capacity]⟩

def setPacing {α : Type} (ring : Ring α) (pacing : Pacing) (line : UInt32) :
    Outcome α (Except Fault Unit) :=
  match pacing.validate with
  | .ok () => ⟨.ok (), { ring with pacing := pacing }, [.pacingSet pacing]⟩
  | .error fault => (Outcome.fail ring fault []).tracked .setPacing line

def setOverwrite {α : Type} (ring : Ring α) (enabled : Bool) : Outcome α Unit :=
  ⟨(), { ring with overwrite := enabled }, [.overwriteSet enabled]⟩

def resetCounters {α : Type} (ring : Ring α) : Outcome α Unit :=
  ⟨(), { ring with recorder := ring.recorder.reset }, [.countersReset]⟩

def clearFailure {α : Type} (ring : Ring α) : Outcome α Unit :=
  ⟨(), { ring with latch := .clear }, [.failureCleared]⟩

/-- Set indices from outside, as a stray write to the ring would. -/
def forceIndices {α : Type} (ring : Ring α) (producer consumer : Option UInt64) :
    Outcome α Unit :=
  let producer := producer.getD ring.producer
  let consumer := consumer.getD ring.consumer
  ⟨(), { ring with producer := producer, consumer := consumer },
    [.indicesForced producer consumer]⟩

/-! ## The state with one part changed -/

def count {α : Type} (ring : Ring α) (change : Counters → Counters) : Ring α :=
  { ring with recorder := ring.recorder.record change }

/-- Move the consumer's index from the value last seen, unless it has moved since. -/
def swapConsumer? {α : Type} (ring : Ring α) (seen next : UInt64) : Option (Ring α) :=
  if ring.consumer = seen then some { ring with consumer := next } else none

theorem swapConsumer?_self {α : Type} (ring : Ring α) (next : UInt64) :
    ring.swapConsumer? ring.consumer next = some { ring with consumer := next } := by
  simp [swapConsumer?]

end Ring

end SpscRing
