import SpscRing.Session.Shared
/-!
# Steps

What can be seen of a session after each call: the answer, the state of the ring, and
the events that the call caused. A split block answers with the steps of its calls,
and their events stand there.
-/

namespace SpscRing

structure Snapshot where
  capacity : UInt64
  occupancy : UInt64
  freeSpace : UInt64
  isEmpty : Bool
  isFull : Bool
  overwrite : Bool
  producer : UInt64
  consumer : UInt64
  counters : Counters
  lastFailure : Report
  deriving DecidableEq, Repr

def Ring.snapshot {α : Type} (ring : Ring α) : Snapshot where
  capacity := ring.capacity
  occupancy := ring.occupancy
  freeSpace := ring.freeSpace
  isEmpty := ring.isEmpty
  isFull := ring.isFull
  overwrite := ring.overwrite
  producer := ring.producer
  consumer := ring.consumer
  counters := ring.counters
  lastFailure := ring.lastFailure

structure Step (α ρ : Type) where
  reply : ρ
  after : Snapshot
  events : List (Event α)

inductive Reply (α : Type) where
  | answer (answer : Answer α)
  | parts (steps : List (Step α (Answer α)))

def Outcome.step {α β : Type} (outcome : Outcome α β) : Step α β × Ring α :=
  match outcome with
  | ⟨result, ring, events⟩ => (⟨result, ring.snapshot, events⟩, ring)

/-- All events of a step, with those of its parts. -/
def Step.allEvents {α : Type} (step : Step α (Reply α)) : List (Event α) :=
  match step.reply with
  | .answer _ => step.events
  | .parts steps => steps.flatMap Step.events ++ step.events

namespace SharedCall

def stepAll {α : Type} : List (SharedCall α) → Ring α → List (Step α (Answer α)) × Ring α
  | [], ring => ([], ring)
  | call :: later, ring =>
    let (step, ring) := (call.run ring).step
    let (steps, ring) := stepAll later ring
    (step :: steps, ring)

end SharedCall

end SpscRing
