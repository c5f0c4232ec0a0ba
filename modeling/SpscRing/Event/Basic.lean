import SpscRing.Event.LogLine
import SpscRing.Fault.Origin
import SpscRing.Wait.Pacing
/-!
# Events

Every operation lists the events it caused, oldest first. Each change of a ring's
state is an event, so the events of a run are its history: which items came in,
which went out and which were dropped. The log shows some of them.
-/

namespace SpscRing

/-- Who looks at the two indices before relying on them. -/
inductive Access where
  | insert
  | remove
  | check
  deriving DecidableEq, Repr

inductive Event (α : Type) where
  /-- The ring was set up afresh over this many cells. -/
  | bound (capacity : UInt64)
  | boundToNothing
  | boundToNoCells
  /-- An item came in; the occupancy counts it. -/
  | accepted (item : α) (occupancy : UInt64)
  | delivered (item : α)
  /-- The oldest item was dropped from its slot. -/
  | evicted (item : α) (slot : UInt64)
  | rejectedFull (capacity : UInt64)
  | rejectedEmpty
  | outOfRange (access : Access) (producer consumer capacity : UInt64)
  /-- A wait for a condition to pass ran to its deadline. -/
  | timedOut (timeout : Duration) (waitingOn : Fault)
  | failed (operation : Operation) (fault : Fault) (line : UInt32)
  | failureCleared
  | countersReset
  | overwriteSet (enabled : Bool)
  | pacingSet (pacing : Pacing)
  /-- The indices were set from outside. -/
  | indicesForced (producer consumer : UInt64)
  deriving DecidableEq, Repr

namespace Event

def badIndicesMessage : Access → String
  | .insert => "insert found indices out of range"
  | .remove => "remove found indices out of range"
  | .check => "ring indices out of range"

def logLine? {α : Type} : Event α → Option LogLine
  | boundToNothing => some .withoutStorage
  | boundToNoCells => some .zeroLength
  | evicted _ slot => some (.evicted slot)
  | rejectedFull capacity => some (.rejectedFull capacity)
  | rejectedEmpty => some .rejectedEmpty
  | outOfRange access producer consumer capacity =>
    some (.badIndices (badIndicesMessage access) producer consumer capacity)
  | timedOut timeout waitingOn => some (.timedOut timeout waitingOn)
  | _ => none

/-! The item that an event brought in, handed to the consumer, or dropped. -/

def accepted? {α : Type} : Event α → Option α
  | accepted item _ => some item
  | _ => none

def delivered? {α : Type} : Event α → Option α
  | delivered item => some item
  | _ => none

def evicted? {α : Type} : Event α → Option α
  | evicted item _ => some item
  | _ => none

end Event

def logLines {α : Type} (events : List (Event α)) : List LogLine :=
  events.filterMap Event.logLine?

@[simp] theorem logLines_nil {α : Type} : logLines ([] : List (Event α)) = [] := rfl

@[simp] theorem logLines_append {α : Type} (earlier later : List (Event α)) :
    logLines (earlier ++ later) = logLines earlier ++ logLines later :=
  List.filterMap_append

end SpscRing
