import SpscRing.Ring.Bulk
import SpscRing.Ring.Contents
import SpscRing.Ring.Text
import SpscRing.Ring.Timed
import SpscRing.Session.Answer
import SpscRing.Session.Call
/-!
# Running shared calls

Each call runs on the ring as the calls before it left it. During a sleep of a
waiting call the calls of its next interlude run, each to its end; they may wait in
turn, on clocks and with interludes of their own.
-/

namespace SpscRing

namespace Query

def answer {α : Type} (ring : Ring α) : Query → Answer α
  | capacity => .number ring.capacity
  | occupancy => .number ring.occupancy
  | freeSpace => .number ring.freeSpace
  | isEmpty => .flag ring.isEmpty
  | isFull => .flag ring.isFull
  | overwriteEnabled => .flag ring.overwrite
  | pacing => .pacing ring.pacing
  | counters => .counters ring.counters
  | lastFailure => .report ring.lastFailure
  | text => .text ring.text ring.indentedText

end Query

/-- Something that others do to a ring while its caller sleeps. -/
abbrev Interlude (α : Type) := Ring α → Outcome α (List (Answer α))

/-- The surroundings of a waiting call: the state of its clock, and what others are
still to do. -/
structure Surroundings (α κ : Type) where
  clock : κ
  interludes : List (Interlude α)

namespace Surroundings

/-- A clock whose sleeps give others their turn. -/
def clockwork {α κ ι : Type} (timepiece : Clock κ ι Unit) :
    Clock (Waiting α (Surroundings α κ)) ι (List (Answer α)) where
  now
    | ⟨ring, history, ⟨clock, interludes⟩⟩ =>
      let (moment, clock) := timepiece.now clock
      (moment, ⟨ring, history, ⟨clock, interludes⟩⟩)
  elapsed since
    | ⟨ring, history, ⟨clock, interludes⟩⟩ =>
      let (reading, clock) := timepiece.elapsed since clock
      (reading, ⟨ring, history, ⟨clock, interludes⟩⟩)
  sleep length
    | ⟨ring, history, ⟨clock, interludes⟩⟩ =>
      let (_, clock) := timepiece.sleep length clock
      match interludes with
      | [] => ([], ⟨ring, history, ⟨clock, []⟩⟩)
      | interlude :: later => Waiting.perform interlude ⟨ring, history, ⟨clock, later⟩⟩

/-- The rounds that any wait on a virtual clock takes which ends at all. -/
def rounds {α : Type} (surroundings : Surroundings α VirtualClock) (pacing : Pacing)
    (timeout : Duration) : Nat :=
  surroundings.clock.rounds pacing timeout surroundings.interludes.length

end Surroundings

def Wait.toOutcome {α κ β ρ γ : Type} (answer : Verdict β → List (Beat β ρ) → γ)
    (wait : Wait β ρ (Waiting α κ)) : Outcome α γ :=
  ⟨answer wait.verdict wait.trace, wait.world.ring, wait.world.events⟩

namespace Ring

def waitToInsert {α : Type} (item : α) (timeout : Duration)
    (surroundings : Surroundings α VirtualClock) (line : UInt32) (ring : Ring α) :
    Outcome α (Answer α) :=
  let rounds := surroundings.rounds ring.pacing timeout
  (ring.insertWithin item timeout (Surroundings.clockwork VirtualClock.timepiece) rounds
    surroundings line).toOutcome .waitedInsert

def waitToRemove {α : Type} (timeout : Duration)
    (surroundings : Surroundings α VirtualClock) (line : UInt32) (ring : Ring α) :
    Outcome α (Answer α) :=
  let rounds := surroundings.rounds ring.pacing timeout
  (ring.removeWithin timeout (Surroundings.clockwork VirtualClock.timepiece) rounds
    surroundings line).toOutcome .waitedRemove

end Ring

def Outcome.andThen {α β γ δ : Type} (first : Outcome α β) (next : Ring α → Outcome α γ)
    (combine : β → γ → δ) : Outcome α δ :=
  match first with
  | ⟨result, ring, events⟩ => ((next ring).map (combine result)).after events

namespace SharedCall

mutual

def run {α : Type} : SharedCall α → (Ring α → Outcome α (Answer α))
  | insert item line => fun ring => (ring.insert item line).map .unit
  | remove line => fun ring => (ring.remove line).map .item
  | peek offset line => fun ring => (ring.peek offset line).map .item
  | insertMany items line => fun ring => (ring.insertMany items line).map .count
  | insertManyCount items line => fun ring => (ring.insertManyCount items line).map .plainCount
  | removeMany buffer line => fun ring =>
    (ring.removeMany buffer line).map fun (result, cells) => .buffer result cells
  | removeManyCount buffer line => fun ring =>
    (ring.removeManyCount buffer line).map fun (moved, cells) => .plainBuffer moved cells
  | insertWithin item timeout clock interludes line =>
    Ring.waitToInsert item timeout ⟨clock, runInterludes interludes⟩ line
  | removeWithin timeout clock interludes line =>
    Ring.waitToRemove timeout ⟨clock, runInterludes interludes⟩ line
  | check line => fun ring => (ring.check line).map .unit
  | isSound line => fun ring => (ring.isSound line).map .flag
  | query question => fun ring => .query ring (question.answer ring)
  | forceIndices producer consumer => fun ring =>
    (ring.forceIndices producer consumer).map fun _ => .done

def runAll {α : Type} : List (SharedCall α) → Interlude α
  | [] => fun ring => .query ring []
  | call :: later => fun ring => (call.run ring).andThen (runAll later) List.cons

def runInterludes {α : Type} : List (List (SharedCall α)) → List (Interlude α)
  | [] => []
  | calls :: later => runAll calls :: runInterludes later

end

end SharedCall

end SpscRing
