import SpscRing.Duration
import SpscRing.Fault.Basic
/-!
# Log lines

What a ring writes to a log: a level, a message that names the event, and the
numbers, texts or durations that belong to it.
-/

namespace SpscRing

inductive LogLevel where
  | warn
  | debug
  | trace
  deriving DecidableEq, Repr

namespace LogLevel

def name : LogLevel → String
  | warn => "WARN"
  | debug => "DEBUG"
  | trace => "TRACE"

end LogLevel

inductive LogValue where
  | number (value : UInt64)
  | text (value : String)
  | duration (value : Duration)
  deriving DecidableEq, Repr

structure LogLine where
  level : LogLevel
  message : String
  fields : List (String × LogValue)
  deriving DecidableEq, Repr

namespace LogLine

def badIndices (message : String) (producer consumer capacity : UInt64) : LogLine :=
  ⟨.warn, message,
    [("producer", .number producer), ("consumer", .number consumer),
      ("capacity", .number capacity)]⟩

def rejectedFull (capacity : UInt64) : LogLine :=
  ⟨.trace, "insert rejected, ring full", [("capacity", .number capacity)]⟩

def rejectedEmpty : LogLine := ⟨.trace, "remove rejected, ring empty", []⟩

def evicted (slot : UInt64) : LogLine :=
  ⟨.trace, "evicted oldest item", [("slot", .number slot)]⟩

def withoutStorage : LogLine := ⟨.warn, "ring initialized without storage", []⟩

def zeroLength : LogLine := ⟨.warn, "ring initialized over zero-length storage", []⟩

/-- A wait that ran to its deadline, with the condition that kept it waiting. -/
def timedOut (timeout : Duration) (waitingOn : Fault) : LogLine :=
  ⟨.debug, "ring operation timed out",
    [("timeout", .duration timeout), ("waiting_on", .text waitingOn.message)]⟩

end LogLine

end SpscRing
