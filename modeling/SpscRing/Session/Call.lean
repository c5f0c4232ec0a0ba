import SpscRing.Wait.VirtualClock
/-!
# Calls

The calls that can be made on a ring, as data. Calls that leave the setup of the ring
alone may also come from its two halves, and during the sleeps of a waiting call from
the other half; the remaining ones need the ring to themselves.
-/

namespace SpscRing

inductive Query where
  | capacity
  | occupancy
  | freeSpace
  | isEmpty
  | isFull
  | overwriteEnabled
  | pacing
  | counters
  | lastFailure
  /-- The two texts that describe the ring. -/
  | text
  deriving DecidableEq, Repr

/-- A call that may be made while the ring is shared. Calls that can fail carry the
line of their caller. -/
inductive SharedCall (α : Type) where
  | insert (item : α) (line : UInt32)
  | remove (line : UInt32)
  | peek (offset : UInt64) (line : UInt32)
  | insertMany (items : List α) (line : UInt32)
  | insertManyCount (items : List α) (line : UInt32)
  | removeMany (buffer : List α) (line : UInt32)
  | removeManyCount (buffer : List α) (line : UInt32)
  /-- Wait for room, with what others do during the first sleep, the second, and so on. -/
  | insertWithin (item : α) (timeout : Duration) (clock : VirtualClock)
      (interludes : List (List (SharedCall α))) (line : UInt32)
  /-- Wait for an item, with what others do during the sleeps. -/
  | removeWithin (timeout : Duration) (clock : VirtualClock)
      (interludes : List (List (SharedCall α))) (line : UInt32)
  | check (line : UInt32)
  | isSound (line : UInt32)
  | query (question : Query)
  /-- Overwrite the indices given, as a stray write would. -/
  | forceIndices (producer consumer : Option UInt64)

inductive Call (α : Type) where
  /-- A call that does not need the ring to itself. -/
  | shared (call : SharedCall α)
  /-- Set the ring up over one of the caller's stores, or over nothing. -/
  | setUp (store : Option Nat) (line : UInt32)
  | setPacing (pacing : Pacing) (line : UInt32)
  | setOverwrite (enabled : Bool)
  | resetCounters
  | clearFailure
  /-- Split the ring into its halves and make calls through them. -/
  | split (calls : List (SharedCall α))

end SpscRing
