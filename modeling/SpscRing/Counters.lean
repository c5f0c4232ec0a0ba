/-!
# Usage counters

Five counters tell how a ring has been used. They are words that wrap around, apart
from the peak, which only rises. A ring built without them records nothing and reads
as zeros.
-/

namespace SpscRing

structure Counters where
  /-- The highest occupancy right after an insert. -/
  peak : UInt64
  inserts : UInt64
  removes : UInt64
  /-- Inserts rejected because the ring was full. -/
  overflows : UInt64
  /-- Removes rejected because the ring was empty. -/
  underflows : UInt64
  deriving DecidableEq, Repr

namespace Counters

def zero : Counters := ⟨0, 0, 0, 0, 0⟩

instance : Inhabited Counters := ⟨zero⟩

def countInsert (occupancy : UInt64) (counters : Counters) : Counters :=
  { counters with
    inserts := counters.inserts + 1
    peak := if counters.peak < occupancy then occupancy else counters.peak }

def countRemove (counters : Counters) : Counters :=
  { counters with removes := counters.removes + 1 }

def countOverflow (counters : Counters) : Counters :=
  { counters with overflows := counters.overflows + 1 }

def countUnderflow (counters : Counters) : Counters :=
  { counters with underflows := counters.underflows + 1 }

end Counters

inductive Recorder where
  | off
  | on (counters : Counters)
  deriving DecidableEq, Repr

namespace Recorder

def record (change : Counters → Counters) : Recorder → Recorder
  | off => off
  | on counters => on (change counters)

def reset (recorder : Recorder) : Recorder := recorder.record fun _ => .zero

def snapshot : Recorder → Counters
  | off => .zero
  | on counters => counters

@[simp] theorem record_off (change : Counters → Counters) : off.record change = off := rfl

@[simp] theorem snapshot_record_on (change : Counters → Counters) (counters : Counters) :
    ((on counters).record change).snapshot = change counters := rfl

@[simp] theorem reset_reset (recorder : Recorder) : recorder.reset.reset = recorder.reset := by
  cases recorder <;> rfl

@[simp] theorem snapshot_reset (recorder : Recorder) : recorder.reset.snapshot = .zero := by
  cases recorder <;> rfl

end Recorder

end SpscRing
