import SpscRing.Ring.Transfer
/-!
# Many items in one call

A bulk call moves items one at a time and stops at the first that cannot be moved.
It fails only if it moved nothing, so no failure hides a partial transfer.
-/

namespace SpscRing.Ring

def offerEach {α : Type} (overwrite : Bool) :
    List α → Ring α → Outcome α (Nat × Option Fault)
  | [], ring => ⟨(0, none), ring, []⟩
  | item :: later, ring =>
    match ring.offer item overwrite with
    | ⟨.error fault, ring, events⟩ => ⟨(0, some fault), ring, events⟩
    | ⟨.ok (), ring, events⟩ =>
      ((offerEach overwrite later ring).map fun (count, stop) => (count + 1, stop)).after events

/-- Fill a buffer from the front, cell by cell, until nothing is left to remove: how many
cells were filled, and what stopped the rest; the buffer, apart from that. -/
def fillEach {α : Type} :
    List α → Ring α → Outcome α (Nat × Option Fault) × List α
  | [], ring => (⟨(0, none), ring, []⟩, [])
  | cell :: later, ring =>
    match ring.take with
    | ⟨.error fault, ring, events⟩ => (⟨(0, some fault), ring, events⟩, cell :: later)
    | ⟨.ok item, ring, events⟩ =>
      let (filled, cells) := fillEach later ring
      ((filled.map fun (count, stop) => (count + 1, stop)).after events, item :: cells)

/-- Insert all the items that can be; the mode is looked at once, beforehand. -/
def offerAll {α : Type} (ring : Ring α) (items : List α) : Outcome α (Except Fault Nat) :=
  match ring.storage.slots? with
  | .error fault => .fail ring fault []
  | .ok _ =>
    if items.isEmpty then .fail ring .noItems []
    else (offerEach ring.overwrite items ring).map fun
      | (0, some fault) => .error fault
      | (count, _) => .ok count

def fillAll {α : Type} (ring : Ring α) (buffer : List α) :
    Outcome α (Except Fault Nat) × List α :=
  match ring.storage.slots? with
  | .error fault => (.fail ring fault [], buffer)
  | .ok _ =>
    if buffer.isEmpty then (.fail ring .noItems [], buffer)
    else
      let (filled, cells) := fillEach buffer ring
      let moved := filled.map fun
        | (0, some fault) => .error fault
        | (count, _) => .ok count
      (moved, cells)

def insertMany {α : Type} (ring : Ring α) (items : List α) (line : UInt32) :
    Outcome α (Except Fault Nat) :=
  (ring.offerAll items).tracked .insertMany line

/-- Remove up to as many items as a buffer has cells: their number, and the buffer. -/
def removeMany {α : Type} (ring : Ring α) (buffer : List α) (line : UInt32) :
    Outcome α (Except Fault Nat × List α) :=
  let (filled, cells) := ring.fillAll buffer
  (filled.tracked .removeMany line).map fun result => (result, cells)

def countOf (result : Except Fault Nat) : Nat :=
  match result with
  | .ok count => count
  | .error _ => 0

def insertManyCount {α : Type} (ring : Ring α) (items : List α) (line : UInt32) :
    Outcome α Nat :=
  (ring.insertMany items line).map countOf

def removeManyCount {α : Type} (ring : Ring α) (buffer : List α) (line : UInt32) :
    Outcome α (Nat × List α) :=
  (ring.removeMany buffer line).map fun (result, buffer) => (countOf result, buffer)

end SpscRing.Ring
