import SpscRing.Wait.Basic
/-!
# Virtual clocks

A clock whose time moves only when it is read or slept on. Each reading may cost a
tick, each sleep may overshoot, and the first readings may be scripted; with none of
these the clock is exact.
-/

namespace SpscRing

/-- A virtual clock: its time, what a reading costs, how far a sleep overshoots,
and the readings it is still to give before it measures. -/
structure VirtualClock where
  time : Duration
  tick : Duration
  overshoot : Duration
  readings : List Duration
  deriving DecidableEq, Repr

namespace VirtualClock

def exact (time : Duration) : VirtualClock := ⟨time, .zero, .zero, []⟩

instance : Inhabited VirtualClock := ⟨exact .zero⟩

/-- The time since a moment: the next scripted reading, or else what was measured. -/
def elapsed (since : Duration) (clock : VirtualClock) : Duration × VirtualClock :=
  let time := clock.time + clock.tick
  match clock.readings with
  | reading :: later => (reading, { clock with time := time, readings := later })
  | [] => (time - since, { clock with time := time })

def sleep (length : Duration) (clock : VirtualClock) : VirtualClock :=
  { clock with time := clock.time + length + clock.overshoot }

def timepiece : Clock VirtualClock Duration Unit where
  now clock := (clock.time, clock)
  elapsed := elapsed
  sleep length clock := ((), clock.sleep length)

def sleepsWithin (pacing : Pacing) (timeout : Duration) : Nat :=
  (timeout.nanos + pacing.interval.nanos - 1) / pacing.interval.nanos

/-- Rounds enough for every wait on this clock that ends at all. Past the scripted
readings, and `scripted` rounds in which something else follows a script, each round
comes nearer by an interval of the pacing to a deadline that can be reached. -/
def rounds (clock : VirtualClock) (pacing : Pacing) (timeout : Duration)
    (scripted : Nat) : Nat :=
  clock.readings.length + scripted + sleepsWithin pacing timeout + 2

@[simp] theorem time_elapsed (since : Duration) (clock : VirtualClock) :
    (clock.elapsed since).2.time = clock.time + clock.tick := by
  unfold elapsed
  split <;> rfl

@[simp] theorem readings_elapsed (since : Duration) (clock : VirtualClock) :
    (clock.elapsed since).2.readings = clock.readings.tail := by
  unfold elapsed
  split
  · next hreadings => rw [hreadings]; rfl
  · next hreadings => rw [hreadings]; rfl

theorem elapsed_of_readings {clock : VirtualClock} (hreadings : clock.readings = [])
    (since : Duration) :
    (clock.elapsed since).1 = (clock.elapsed since).2.time - since := by
  simp [elapsed, hreadings]

@[simp] theorem elapsed_exact (since time : Duration) :
    (exact time).elapsed since = (time - since, exact time) := by
  have htime : time + .zero = time := by
    ext
    simpa using Nat.min_eq_left time.nanos_le
  simp [elapsed, exact, htime]

@[simp] theorem sleep_exact (length time : Duration) :
    (exact time).sleep length = exact (time + length) := by
  have htime : time + length + .zero = time + length := by
    ext
    simp
  simp [sleep, exact, htime]

end VirtualClock

end SpscRing
