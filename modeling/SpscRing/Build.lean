import SpscRing.Counters
import SpscRing.Event.Basic
/-!
# Builds

Counters and log are diagnostics that a build may leave out. What a build leaves out is
decided here, for rings and for waits of their own alike.
-/

namespace SpscRing

/-- Which diagnostics there are. -/
inductive Build where
  /-- Counters are kept and a log is written. -/
  | full
  /-- Neither. -/
  | bare
  deriving DecidableEq, Repr

namespace Build

def recorder : Build → Recorder
  | full => .on .zero
  | bare => .off

def written (lines : List LogLine) : Build → List LogLine
  | full => lines
  | bare => []

def log {α : Type} (build : Build) (events : List (Event α)) : List LogLine :=
  build.written (logLines events)

theorem reset_recorder (build : Build) : build.recorder.reset = build.recorder := by
  cases build <;> rfl

theorem exists_recorder_eq_reset (recorder : Recorder) :
    ∃ build : Build, build.recorder = recorder.reset := by
  cases recorder with
  | off => exact ⟨bare, rfl⟩
  | on counters => exact ⟨full, rfl⟩

@[simp] theorem written_bare (lines : List LogLine) : bare.written lines = [] := rfl

@[simp] theorem written_append (build : Build) (earlier later : List LogLine) :
    build.written (earlier ++ later) = build.written earlier ++ build.written later := by
  cases build <;> rfl

end Build

end SpscRing
