import SpscRing.Wait.Basic
import SpscRing.Ring.Transfer
/-!
# Waiting for a slot or an item

A timed call repeats an insert while the ring is full, or a remove while it is empty.
Between two attempts the clock sleeps, and whatever the other side does meanwhile
happens to the same ring. A timed call that fails records one failure, at its end.
-/

namespace SpscRing

/-- The world of a waiting call: the ring, what has happened to it since the call
began, newest first so that a long wait is cheap to note down, and the clock. -/
structure Waiting (α κ : Type) where
  ring : Ring α
  history : List (Event α)
  clock : κ

namespace Waiting

def events {α κ : Type} (waiting : Waiting α κ) : List (Event α) := waiting.history.reverse

def perform {α κ β : Type} (action : Ring α → Outcome α β) :
    Waiting α κ → β × Waiting α κ
  | ⟨ring, history, clock⟩ =>
    let outcome := action ring
    (outcome.result, ⟨outcome.ring, outcome.events.reverse ++ history, clock⟩)

def fail {α κ : Type} (operation : Operation) (fault : Fault) (line : UInt32) :
    Waiting α κ → Waiting α κ
  | ⟨ring, history, clock⟩ =>
    ⟨{ ring with latch := .ofFailure operation fault line },
      .failed operation fault line :: history, clock⟩

def giveUp {α κ : Type} (timeout : Duration) (waitingOn : Fault) : Waiting α κ → Waiting α κ
  | ⟨ring, history, clock⟩ => ⟨ring, .timedOut timeout waitingOn :: history, clock⟩

@[simp] theorem events_perform {α κ β : Type} (action : Ring α → Outcome α β)
    (waiting : Waiting α κ) :
    (waiting.perform action).2.events = waiting.events ++ (action waiting.ring).events := by
  simp [events, perform]

@[simp] theorem events_fail {α κ : Type} (operation : Operation) (fault : Fault)
    (line : UInt32) (waiting : Waiting α κ) :
    (waiting.fail operation fault line).events =
      waiting.events ++ [.failed operation fault line] := by
  simp [events, fail]

@[simp] theorem events_giveUp {α κ : Type} (timeout : Duration) (waitingOn : Fault)
    (waiting : Waiting α κ) :
    (waiting.giveUp timeout waitingOn).events =
      waiting.events ++ [.timedOut timeout waitingOn] := by
  simp [events, giveUp]

end Waiting

namespace Ring

/-- Record how a wait ended, if it ended in failure. -/
def concludeWait {α κ β ρ : Type} (operation : Operation) (waitingOn : Fault) (line : UInt32)
    (timeout : Duration) (wait : Wait β ρ (Waiting α κ)) : Wait β ρ (Waiting α κ) :=
  match wait with
  | ⟨.settled (.error fault), trace, world⟩ =>
    ⟨.settled (.error fault), trace, world.fail operation fault line⟩
  | ⟨.gaveUp, trace, world⟩ =>
    ⟨.gaveUp, trace, (world.giveUp timeout waitingOn).fail operation .timedOut line⟩
  | ended => ended

/-- Insert an item, waiting until there is room for it. Whether old items may be
dropped is looked at once, at the start. -/
def insertWithin {α κ ι ρ : Type} (ring : Ring α) (item : α) (timeout : Duration)
    (clock : Clock (Waiting α κ) ι ρ) (rounds : Nat) (start : κ) (line : UInt32) :
    Wait Unit ρ (Waiting α κ) :=
  let pacing := ring.pacing
  let overwrite := ring.overwrite
  concludeWait .insertWithin .full line timeout <|
    Wait.run clock pacing timeout .full (Waiting.perform (·.offer item overwrite)) rounds
      ⟨ring, [], start⟩

def removeWithin {α κ ι ρ : Type} (ring : Ring α) (timeout : Duration)
    (clock : Clock (Waiting α κ) ι ρ) (rounds : Nat) (start : κ) (line : UInt32) :
    Wait α ρ (Waiting α κ) :=
  let pacing := ring.pacing
  concludeWait .removeWithin .empty line timeout <|
    Wait.run clock pacing timeout .empty (Waiting.perform take) rounds ⟨ring, [], start⟩

end Ring

end SpscRing
