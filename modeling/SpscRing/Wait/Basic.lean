import SpscRing.Event.LogLine
import SpscRing.Wait.Pacing
/-!
# Waiting until an attempt succeeds or a deadline passes

Nobody wakes a waiting side: it sleeps for a short interval and tries again. The
loop runs over any clock on any world, so an attempt may depend on what others do
to that world during a sleep. It keeps a trace of every attempt, reading and sleep.
-/

namespace SpscRing

/-- A time source and sleeper on a world `σ`. Moments are of type `ι`, and a sleep
reports what went on meanwhile as a `ρ`. -/
structure Clock (σ ι ρ : Type) where
  now : σ → ι × σ
  elapsed : ι → σ → Duration × σ
  sleep : Duration → σ → ρ × σ

inductive Beat (β ρ : Type) where
  | now
  | attempt (outcome : Except Fault β)
  | elapsed (reading : Duration)
  | sleep (length : Duration) (report : ρ)

inductive Verdict (β : Type) where
  | settled (outcome : Except Fault β)
  | gaveUp
  /-- Neither happened within the rounds allowed. -/
  | unsettled

structure Wait (β ρ σ : Type) where
  verdict : Verdict β
  trace : List (Beat β ρ)
  world : σ

namespace Beat

def outcome? {β ρ : Type} : Beat β ρ → Option (Except Fault β)
  | attempt outcome => some outcome
  | _ => none

def reading? {β ρ : Type} : Beat β ρ → Option Duration
  | elapsed reading => some reading
  | _ => none

def sleep? {β ρ : Type} : Beat β ρ → Option Duration
  | sleep length _ => some length
  | _ => none

end Beat

namespace Verdict

/-- The result of a wait that ended; giving up is a failure of its own. -/
def result? {β : Type} : Verdict β → Option (Except Fault β)
  | settled outcome => some outcome
  | gaveUp => some (.error .timedOut)
  | unsettled => none

def logLines {β : Type} (timeout : Duration) (waitingOn : Fault) : Verdict β → List LogLine
  | gaveUp => [.timedOut timeout waitingOn]
  | _ => []

end Verdict

namespace Wait

def outcomes {β ρ σ : Type} (wait : Wait β ρ σ) : List (Except Fault β) :=
  wait.trace.filterMap Beat.outcome?

def readings {β ρ σ : Type} (wait : Wait β ρ σ) : List Duration :=
  wait.trace.filterMap Beat.reading?

def sleeps {β ρ σ : Type} (wait : Wait β ρ σ) : List Duration :=
  wait.trace.filterMap Beat.sleep?

def after {β ρ σ : Type} (wait : Wait β ρ σ) (beats : List (Beat β ρ)) : Wait β ρ σ :=
  { wait with trace := beats ++ wait.trace }

end Wait

def failsWith {β : Type} (retryOn : Fault) : Except Fault β → Bool
  | .error fault => fault == retryOn
  | .ok _ => false

/-- The rounds of a wait after its first attempt: read the clock, give up at the
deadline, otherwise sleep no longer than the time that is left, and try again. The
delay goes on doubling even when a sleep had to be cut short. -/
def Wait.retry {β ρ σ ι : Type} (clock : Clock σ ι ρ) (pacing : Pacing) (timeout : Duration)
    (retryOn : Fault) (attempt : σ → Except Fault β × σ) (start : ι) :
    Nat → Duration → σ → Wait β ρ σ
  | 0, _, world => ⟨.unsettled, [], world⟩
  | rounds + 1, delay, world =>
    let (reading, world) := clock.elapsed start world
    if timeout ≤ reading then
      ⟨.gaveUp, [.elapsed reading], world⟩
    else
      let length := min delay (timeout - reading)
      let (report, world) := clock.sleep length world
      let (outcome, world) := attempt world
      let beats := [.elapsed reading, .sleep length report, .attempt outcome]
      if failsWith retryOn outcome then
        (Wait.retry clock pacing timeout retryOn attempt start rounds
          (pacing.nextDelay delay) world).after beats
      else
        ⟨.settled outcome, beats, world⟩

/-- Repeat `attempt` until it ends in anything but the fault `retryOn`, or `timeout`
has passed. The first attempt is made at once, and with a zero timeout its failure
stands; the pacing is looked at only when a second attempt is needed. At most
`rounds` further attempts are made. -/
def Wait.run {β ρ σ ι : Type} (clock : Clock σ ι ρ) (pacing : Pacing) (timeout : Duration)
    (retryOn : Fault) (attempt : σ → Except Fault β × σ) (rounds : Nat) (world : σ) :
    Wait β ρ σ :=
  let (start, world) := clock.now world
  let (outcome, world) := attempt world
  let beats := [.now, .attempt outcome]
  if failsWith retryOn outcome && !timeout.isZero then
    match pacing.validate with
    | .error fault => ⟨.settled (.error fault), beats, world⟩
    | .ok () =>
      (Wait.retry clock pacing timeout retryOn attempt start rounds pacing.interval world).after
        beats
  else
    ⟨.settled outcome, beats, world⟩

end SpscRing
