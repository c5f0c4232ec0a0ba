import SpscRing.Fault.Basic
/-!
# Bounded queues

The queue that a ring is meant to be: a list of items that holds one item less than
there are slots. It says what each operation does without memory or indices.
-/

namespace SpscRing

/-- Items in order of arrival, oldest first, with the number of slots and the mode. -/
structure BoundedQueue (α : Type) where
  items : List α
  slots : Nat
  overwrite : Bool
  deriving DecidableEq, Repr

namespace BoundedQueue

def isFull {α : Type} (queue : BoundedQueue α) : Bool :=
  decide (queue.slots ≤ queue.items.length + 1)

def freeSpace {α : Type} (queue : BoundedQueue α) : Nat :=
  queue.slots - 1 - queue.items.length

/-- Add an item at the end. A full queue rejects it, or drops its oldest item first;
a queue of one slot has no item to drop. -/
def insert {α : Type} (queue : BoundedQueue α) (item : α) :
    Except Fault Unit × BoundedQueue α :=
  if !queue.isFull then
    (.ok (), { queue with items := queue.items ++ [item] })
  else if queue.overwrite && decide (2 ≤ queue.slots) then
    (.ok (), { queue with items := queue.items.tail ++ [item] })
  else
    (.error .full, queue)

def remove {α : Type} (queue : BoundedQueue α) : Except Fault α × BoundedQueue α :=
  match queue.items with
  | [] => (.error .empty, queue)
  | item :: later => (.ok item, { queue with items := later })

def itemAt {α : Type} (queue : BoundedQueue α) (offset : Nat) : Except Fault α :=
  match queue.items[offset]? with
  | some item => .ok item
  | none => .error .badOffset

end BoundedQueue

end SpscRing
