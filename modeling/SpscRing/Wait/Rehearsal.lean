import SpscRing.Build
import SpscRing.Wait.VirtualClock
/-!
# Waits with scripted attempts

A rehearsal runs a wait on a virtual clock with attempts whose outcomes are laid
down beforehand, so that the course of the wait alone is seen.
-/

namespace SpscRing

/-- A sequence that goes on for ever by repeating its last element. -/
structure Script (β : Type) where
  next : β
  later : List β

namespace Script

def advance {β : Type} (script : Script β) : β × Script β :=
  match script.later with
  | [] => (script.next, script)
  | next :: later => (script.next, ⟨next, later⟩)

theorem later_advance {β : Type} (script : Script β) :
    script.advance.2.later = script.later.tail := by
  obtain ⟨next, _ | ⟨second, later⟩⟩ := script <;> rfl

theorem advance_advance {β : Type} {script : Script β} (hlast : script.later = []) :
    script.advance.2.advance.1 = script.advance.1 := by
  obtain ⟨next, later⟩ := script
  cases hlast
  rfl

end Script

structure Rehearsal (β : Type) where
  clock : VirtualClock
  outcomes : Script (Except Fault β)

namespace Rehearsal

def clockwork (β : Type) : Clock (Rehearsal β) Duration Unit where
  now rehearsal := (rehearsal.clock.time, rehearsal)
  elapsed since rehearsal :=
    let (reading, clock) := rehearsal.clock.elapsed since
    (reading, { rehearsal with clock := clock })
  sleep length rehearsal := ((), { rehearsal with clock := rehearsal.clock.sleep length })

def attempt {β : Type} (rehearsal : Rehearsal β) : Except Fault β × Rehearsal β :=
  let (outcome, outcomes) := rehearsal.outcomes.advance
  (outcome, { rehearsal with outcomes := outcomes })

def run {β : Type} (rehearsal : Rehearsal β) (pacing : Pacing) (timeout : Duration)
    (retryOn : Fault) : Wait β Unit (Rehearsal β) :=
  Wait.run (clockwork β) pacing timeout retryOn attempt
    (rehearsal.clock.rounds pacing timeout rehearsal.outcomes.later.length) rehearsal

def log {β : Type} (build : Build) (timeout : Duration) (waitingOn : Fault)
    (wait : Wait β Unit (Rehearsal β)) : List LogLine :=
  build.written (wait.verdict.logLines timeout waitingOn)

end Rehearsal

end SpscRing
