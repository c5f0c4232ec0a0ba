import SpscRing.Proofs.Transfers
/-!
# Pacings that can be used

A wait asks its ring for a pacing, and trusts it: a pacing with a zero interval would spin, and one
with a cap below its interval would not stop at the cap. Nothing that is done to a ring leaves it
with such a pacing, so no wait has anything to reject, and none of its sleeps is empty or above the
cap. The same holds of the waits that others make during those sleeps.
-/

namespace SpscRing

/-! ## Delays -/

namespace Pacing

theorem valid_of_validate {pacing : Pacing} (haccepted : pacing.validate = .ok ()) :
    pacing.Valid := by
  by_cases hvalid : pacing.Valid
  · exact hvalid
  · simp [validate_eq, hvalid] at haccepted

/-- A sleep that a pacing can ask for: never an empty one, and none above its cap. -/
def Allows (pacing : Pacing) (length : Duration) : Prop :=
  0 < length.nanos ∧ length ≤ pacing.cap

variable {pacing : Pacing} {delay timeout reading : Duration}

theorem allows_interval (hvalid : pacing.Valid) : pacing.Allows pacing.interval := hvalid

/-- Doubling stops at the largest duration and at the cap, and both are above zero. -/
theorem Allows.nextDelay (hdelay : pacing.Allows delay) :
    pacing.Allows (pacing.nextDelay delay) := by
  obtain ⟨hpos, hle⟩ := hdelay
  rw [Duration.le_def] at hle
  have hmax := delay.nanos_le
  constructor
  · rw [Pacing.nextDelay, Duration.nanos_min, Duration.nanos_double]
    omega
  · rw [Pacing.nextDelay, Duration.le_def, Duration.nanos_min]
    exact Nat.min_le_right _ _

/-- A sleep that is cut short is not cut down to nothing, as the deadline has not passed. -/
theorem Allows.min_sub (hdelay : pacing.Allows delay) (htime : ¬timeout ≤ reading) :
    pacing.Allows (min delay (timeout - reading)) := by
  obtain ⟨hpos, hle⟩ := hdelay
  rw [Duration.le_def] at hle htime
  constructor
  · rw [Duration.nanos_min, Duration.nanos_sub]
    omega
  · rw [Duration.le_def, Duration.nanos_min]
    exact Nat.le_trans (Nat.min_le_left _ _) hle

end Pacing

/-! ## Waits -/

/-- A wait that its pacing did not stop, and all of whose sleeps it allows. -/
structure InPace {β ρ : Type} (pacing : Pacing) (verdict : Verdict β) (trace : List (Beat β ρ)) :
    Prop where
  unblamed : verdict.result? ≠ some (.error .badPacing)
  sleeps : ∀ length ∈ trace.filterMap Beat.sleep?, pacing.Allows length

theorem Verdict.unblamed_of_settled {β : Type} {outcome : Except Fault β}
    (houtcome : outcome ≠ .error .badPacing) :
    (settled outcome).result? ≠ some (.error .badPacing) :=
  fun hresult => houtcome (Option.some.inj hresult)

namespace Wait

variable {β ρ σ ι : Type} {clock : Clock σ ι ρ} {pacing : Pacing} {timeout : Duration}
  {retryOn : Fault} {attempt : σ → Except Fault β × σ} {start : ι}

variable (hattempt : ∀ world, (attempt world).1 ≠ .error .badPacing)

include hattempt

/-- The delay is one that the pacing allows at the start of every round, whatever the clock reads
and the world does. -/
theorem inPace_retry (rounds : Nat) {delay : Duration} (hdelay : pacing.Allows delay) (world : σ) :
    let wait := retry clock pacing timeout retryOn attempt start rounds delay world
    InPace pacing wait.verdict wait.trace := by
  induction rounds generalizing delay world with
  | zero => exact ⟨nofun, List.forall_mem_nil _⟩
  | succ rounds ih =>
      rw [retry]
      generalize clock.elapsed start world = read
      obtain ⟨reading, world⟩ := read
      dsimp only
      split
      · exact ⟨nofun, List.forall_mem_nil _⟩
      · next htime =>
        have hlength := hdelay.min_sub htime
        split
        · obtain ⟨hunblamed, hsleeps⟩ := ih hdelay.nextDelay _
          exact ⟨hunblamed, List.forall_mem_cons.mpr ⟨hlength, hsleeps⟩⟩
        · exact ⟨Verdict.unblamed_of_settled (hattempt _), List.forall_mem_singleton.mpr hlength⟩

theorem inPace_run (hvalid : pacing.Valid) (rounds : Nat) (world : σ) :
    let wait := run clock pacing timeout retryOn attempt rounds world
    InPace pacing wait.verdict wait.trace := by
  by_cases hends :
      failsWith retryOn (attempt (clock.now world).2).1 = false ∨ timeout.isZero = true
  · rw [run_of_settled hends]
    exact ⟨Verdict.unblamed_of_settled (hattempt _), List.forall_mem_nil _⟩
  · rw [not_or, Bool.not_eq_false, Bool.not_eq_true] at hends
    rw [run_of_valid hends.1 hends.2 hvalid]
    -- The beats of the first attempt, in front of the rest, have no sleep among them.
    obtain ⟨hunblamed, hsleeps⟩ := inPace_retry hattempt rounds (Pacing.allows_interval hvalid) _
    exact ⟨hunblamed, hsleeps⟩

end Wait

namespace Ring

variable {α : Type}

theorem ne_badPacing_of_inert {storage : Storage α} {fault : Fault}
    (hslots : storage.slots? = .error fault) : fault ≠ .badPacing := by
  obtain ⟨_, rfl⟩ | ⟨_, rfl⟩ := Storage.inert_of_slots? hslots
  · decide
  · decide

theorem offer_ne_badPacing (ring : Ring α) (item : α) (overwrite : Bool) :
    (ring.offer item overwrite).result ≠ .error .badPacing := by
  have hend := ring.offered item overwrite
  generalize ring.offer item overwrite = outcome at hend ⊢
  cases hend with
  | inert hslots =>
      intro hfails
      exact ne_badPacing_of_inert hslots (Except.error.inj hfails)
  | corrupted | full | replaced | accepted => nofun

theorem take_ne_badPacing (ring : Ring α) : ring.take.result ≠ .error .badPacing := by
  have hend := ring.taken
  generalize ring.take = outcome at hend ⊢
  cases hend with
  | inert hslots =>
      intro hfails
      exact ne_badPacing_of_inert hslots (Except.error.inj hfails)
  | corrupted | empty | delivered => nofun

variable {κ ι ρ : Type} {ring : Ring α}

theorem inPace_concludeWait {β : Type} {operation : Operation} {waitingOn : Fault} {line : UInt32}
    {timeout : Duration} {pacing : Pacing} {wait : Wait β ρ (Waiting α κ)}
    (hwait : InPace pacing wait.verdict wait.trace) :
    let ended := concludeWait operation waitingOn line timeout wait
    InPace pacing ended.verdict ended.trace := by
  obtain ⟨(fault | result) | _ | _, trace, world⟩ := wait <;> exact hwait

variable (hvalid : ring.pacing.Valid) (timeout : Duration) (clock : Clock (Waiting α κ) ι ρ)
  (rounds : Nat) (start : κ) (line : UInt32)

include hvalid

theorem inPace_insertWithin (item : α) :
    let wait := ring.insertWithin item timeout clock rounds start line
    InPace ring.pacing wait.verdict wait.trace :=
  inPace_concludeWait
    (Wait.inPace_run (fun world => offer_ne_badPacing world.ring item ring.overwrite) hvalid
      rounds _)

theorem inPace_removeWithin :
    let wait := ring.removeWithin timeout clock rounds start line
    InPace ring.pacing wait.verdict wait.trace :=
  inPace_concludeWait
    (Wait.inPace_run (fun world => take_ne_badPacing world.ring) hvalid rounds _)

end Ring

/-! ## Waits within waits -/

namespace Answer

variable {α : Type}

def isWait : Answer α → Bool
  | waitedInsert _ _ | waitedRemove _ _ => true
  | _ => false

/-- An answer in which all waits keep to a pacing, those of others during its sleeps as well, and
those of others during theirs. -/
inductive InPace (pacing : Pacing) : Answer α → Prop where
  | direct {answer : Answer α} (hdirect : answer.isWait = false) : InPace pacing answer
  | waitedInsert {verdict : Verdict Unit} {trace : List (Beat Unit (List (Answer α)))}
      (hwait : SpscRing.InPace pacing verdict trace)
      (hpeers : ∀ report ∈ reports trace, ∀ answer ∈ report, InPace pacing answer) :
      InPace pacing (.waitedInsert verdict trace)
  | waitedRemove {verdict : Verdict α} {trace : List (Beat α (List (Answer α)))}
      (hwait : SpscRing.InPace pacing verdict trace)
      (hpeers : ∀ report ∈ reports trace, ∀ answer ∈ report, InPace pacing answer) :
      InPace pacing (.waitedRemove verdict trace)

end Answer

section

open SharedCall

variable {α β : Type} {pacing : Pacing} {attempt : Ring α → Outcome α (Except Fault β)}
  {waitingOn : Fault} {scripts : List (List (SharedCall α))} {ring final : Ring α}
  {verdict : Verdict β} {trace : List (Beat β (List (Answer α)))} {events : List (Event α)}

def KeepsPace (pacing : Pacing) (calls : Interlude α) : Prop :=
  ∀ ring : Ring α, ring.pacing = pacing →
    (calls ring).ring.pacing = pacing ∧ ∀ answer ∈ (calls ring).result, answer.InPace pacing

theorem keepsPace_turn {interludes : List (Interlude α)}
    (hpeers : ∀ interlude ∈ interludes, KeepsPace pacing interlude) :
    KeepsPace pacing (Surroundings.turn interludes) := by
  cases interludes with
  | nil => exact fun ring hpacing => ⟨hpacing, List.forall_mem_nil _⟩
  | cons interlude later => exact hpeers interlude List.mem_cons_self

/-- Round by round, the others find the pacing that the wait began with. -/
theorem Rounds.inPace_reports {interludes : List (Interlude α)}
    (hattempt : ∀ ring, (attempt ring).ring.pacing = ring.pacing)
    (hpeers : ∀ interlude ∈ interludes, KeepsPace pacing interlude)
    (hrounds : Rounds attempt waitingOn interludes ring verdict trace events final)
    (hpacing : ring.pacing = pacing) :
    ∀ report ∈ reports trace, ∀ answer ∈ report, answer.InPace pacing := by
  induction hrounds with
  | unsettled | gaveUp => exact List.forall_mem_nil _
  | settled reading length hturn htried =>
      subst hturn
      exact List.forall_mem_singleton.mpr (keepsPace_turn hpeers _ hpacing).2
  | again reading length hturn htried _ _ ih =>
      subst hturn htried
      obtain ⟨hkept, hanswers⟩ := keepsPace_turn hpeers _ hpacing
      have hlater := ih (fun interlude hmem => hpeers interlude (List.mem_of_mem_tail hmem))
        ((hattempt _).trans hkept)
      rw [reports_append, reports_roundBeats]
      exact List.forall_mem_cons.mpr ⟨hanswers, hlater⟩

theorem WaitingCall.inPace_reports {operation : Operation} {line : UInt32} {timeout : Duration}
    {interludes : List (Interlude α)}
    (hattempt : ∀ ring, (attempt ring).ring.pacing = ring.pacing)
    (hpeers : ∀ interlude ∈ interludes, KeepsPace ring.pacing interlude)
    (hcall : WaitingCall attempt operation waitingOn line timeout interludes ring verdict trace
      events final) :
    ∀ report ∈ reports trace, ∀ answer ∈ report, answer.InPace ring.pacing := by
  obtain ⟨hwaited, _⟩ := hcall
  cases hwaited with
  | atOnce | badPacing => exact List.forall_mem_nil _
  | later htried _ _ _ hrounds =>
      subst htried
      have hlater := hrounds.inPace_reports hattempt hpeers (hattempt ring)
      rw [reports_append]
      exact hlater

namespace SharedCall

def IsPaced (call : SharedCall α) : Prop :=
  ∀ ring : Ring α, ring.pacing.Valid → (call.run ring).result.InPace ring.pacing

theorem pacing_run (call : SharedCall α) (ring : Ring α) :
    (call.run ring).ring.pacing = ring.pacing :=
  (call.moves_run (.inl rfl) ring).pacing_eq

theorem keepsPace_runAll {calls : List (SharedCall α)} (hvalid : pacing.Valid)
    (hcalls : ∀ call ∈ calls, call.IsPaced) : KeepsPace pacing (runAll calls) := by
  induction calls with
  | nil => exact fun ring hpacing => ⟨hpacing, List.forall_mem_nil _⟩
  | cons call later ih =>
      obtain ⟨hcall, hlater⟩ := List.forall_mem_cons.mp hcalls
      intro ring hpacing
      subst hpacing
      obtain ⟨hkept, hanswers⟩ := ih hlater (call.run ring).ring (call.pacing_run ring)
      exact ⟨hkept, List.forall_mem_cons.mpr ⟨hcall ring hvalid, hanswers⟩⟩

theorem keepsPace_runInterludes (hvalid : pacing.Valid)
    (hpeers : ∀ calls ∈ scripts, ∀ peer ∈ calls, peer.IsPaced) :
    ∀ interlude ∈ runInterludes scripts, KeepsPace pacing interlude := by
  rw [runInterludes_eq]
  exact List.forall_mem_map.mpr fun calls hcalls => keepsPace_runAll hvalid (hpeers calls hcalls)

/-- All waits of a call keep to the pacing of the ring, however deep they lie in its answer. -/
theorem isPaced (call : SharedCall α) : call.IsPaced := by
  induction call using induct with
  | hstep call ih =>
      intro ring hvalid
      have hothers := keepsPace_runInterludes hvalid ih
      cases call with
      | insertWithin item timeout clock scripts line =>
          have hcall := SpscRing.waitingCall_insertWithin VirtualClock.timepiece ring timeout
            (Surroundings.rounds ⟨clock, runInterludes scripts⟩ ring.pacing timeout)
            ⟨clock, runInterludes scripts⟩ line item
          exact .waitedInsert (Ring.inPace_insertWithin hvalid timeout _ _ _ line item)
            (hcall.inPace_reports (fun ring => ring.pacing_offer item _) hothers)
      | removeWithin timeout clock scripts line =>
          have hcall := SpscRing.waitingCall_removeWithin VirtualClock.timepiece ring timeout
            (Surroundings.rounds ⟨clock, runInterludes scripts⟩ ring.pacing timeout)
            ⟨clock, runInterludes scripts⟩ line
          exact .waitedRemove (Ring.inPace_removeWithin hvalid timeout _ _ _ line)
            (hcall.inPace_reports Ring.pacing_take hothers)
      | query question => cases question <;> exact .direct rfl
      | _ => exact .direct rfl

end SharedCall

end

/-! ## Runs -/

/-- The pacing that an event tells of: one that was accepted, or the default one, with which a ring
is set up whether or not that succeeds. -/
def Event.pacing? {α : Type} : Event α → Option Pacing
  | pacingSet pacing => some pacing
  | bound _ | boundToNothing | boundToNoCells => some .default
  | _ => none

def Call.pacing? {α : Type} : Call α → Reply α → Option Pacing
  | setUp _ _, _ => some .default
  | setPacing pacing _, .answer (.unit (.ok ())) => some pacing
  | _, _ => none

def pacings {α : Type} (events : List (Event α)) : List Pacing := events.filterMap Event.pacing?

theorem pacings_append {α : Type} (earlier later : List (Event α)) :
    pacings (earlier ++ later) = pacings earlier ++ pacings later :=
  List.filterMap_append

theorem pacings_of_isControl {α : Type} {events : List (Event α)}
    (hmoved : ∀ event ∈ events, event.isControl = false) : pacings events = [] := by
  rw [pacings, List.filterMap_eq_nil_iff]
  intro event hevent
  have hnone := hmoved event hevent
  cases event with
  | bound | boundToNothing | boundToNoCells | pacingSet => cases hnone
  | _ => rfl

namespace Ring

variable {α : Type} {stray : Bool} {start ring next : Ring α} {events : List (Event α)}

theorem Change.pacing_eq (hchange : Change stray ring events next) :
    next.pacing = (pacings events).getLastD ring.pacing := by
  cases hchange with
  | move hmove =>
      rw [pacings_of_isControl hmove.isControl_eq]
      exact hmove.pacing_eq
  | setUp hstray _ storage line =>
      cases storage with
      | absent | noCells | lent => rfl
  | setPacing _ pacing line =>
      have hend := ring.paced pacing line
      generalize ring.setPacing pacing line = outcome at hend ⊢
      cases hend with
      | installed | refused => rfl
  | setOverwrite | resetCounters | clearFailure => rfl

theorem Change.valid_pacing (hchange : Change stray ring events next) (hvalid : ring.pacing.Valid) :
    next.pacing.Valid := by
  cases hchange with
  | move hmove => rwa [hmove.pacing_eq]
  | setUp hstray _ storage line =>
      cases storage with
      | absent | noCells | lent => exact Pacing.valid_default
  | setPacing _ pacing line =>
      have hend := ring.paced pacing line
      generalize ring.setPacing pacing line = outcome at hend ⊢
      cases hend with
      | installed haccepted => exact Pacing.valid_of_validate haccepted
      | refused => exact hvalid
  | setOverwrite | resetCounters | clearFailure => exact hvalid

theorem Course.pacing_latest (hcourse : Course (Change stray) start events ring) :
    ring.pacing = (pacings events).getLastD start.pacing := by
  induction hcourse with
  | rest => rfl
  | step _ hchange ih =>
      rw [hchange.pacing_eq, ih, pacings_append]
      simp only [List.getLastD_eq_getLast?, List.getLast?_append, Option.getD_or]

theorem Course.valid_pacing (hcourse : Course (Change stray) start events ring)
    (hvalid : start.pacing.Valid) : ring.pacing.Valid := by
  induction hcourse with
  | rest => exact hvalid
  | step _ hchange ih => exact hchange.valid_pacing ih

end Ring

def installed {α : Type} (calls : List (Call α)) (replies : List (Reply α)) : List Pacing :=
  (calls.zip replies).filterMap fun answered => answered.1.pacing? answered.2

/-- A ring whose waits keep to its pacing: those that are called for on any clock, while others do
to the ring whatever they like, and all those in the answers of calls. -/
structure Ring.WaitsInPace {α : Type} (ring : Ring α) : Prop where
  valid : ring.pacing.Valid
  insertWithin : ∀ {κ ι ρ : Type} (clock : Clock (Waiting α κ) ι ρ) item timeout rounds start line,
    let wait := ring.insertWithin item timeout clock rounds start line
    InPace ring.pacing wait.verdict wait.trace
  removeWithin : ∀ {κ ι ρ : Type} (clock : Clock (Waiting α κ) ι ρ) timeout rounds start line,
    let wait := ring.removeWithin timeout clock rounds start line
    InPace ring.pacing wait.verdict wait.trace
  call : ∀ call : SharedCall α, (call.run ring).result.InPace ring.pacing

theorem Ring.waitsInPace {α : Type} {ring : Ring α} (hvalid : ring.pacing.Valid) :
    ring.WaitsInPace where
  valid := hvalid
  insertWithin clock item timeout rounds start line :=
    inPace_insertWithin hvalid timeout clock rounds start line item
  removeWithin clock timeout rounds start line :=
    inPace_removeWithin hvalid timeout clock rounds start line
  call call := call.isPaced ring hvalid

namespace Session

open SpscRing.Ring

variable {α : Type}

def opened (build : Build) (stores : List (Memory α)) : Opening → Session α
  | .unbound => fresh build stores
  | .bound line | .tryBound line => ((fresh build stores).lend (some 0) line).2

theorem run_opened (build : Build) (opening : Opening) (stores : List (Memory α))
    (calls : List (Call α)) :
    (∃ fault events returned, run build opening stores calls = .refused fault events returned) ∨
      ∃ first, run build opening stores calls =
        (opened build stores opening).complete first calls := by
  cases opening with
  | unbound | bound => exact .inr ⟨_, rfl⟩
  | tryBound line =>
      unfold run
      dsimp only
      split
      · exact .inl ⟨_, _, _, rfl⟩
      · exact .inr ⟨_, rfl⟩

theorem pacing_setUp (ring : Ring α) (storage : Storage α) (line : UInt32) :
    (ring.setUp storage line).ring.pacing = .default ∧
      pacings (ring.setUp storage line).events = [.default] := by
  cases storage with
  | absent | noCells | lent => exact ⟨rfl, rfl⟩

theorem pacing_opened (build : Build) (stores : List (Memory α)) (opening : Opening) :
    (opened build stores opening).ring.pacing = .default := by
  cases opening with
  | unbound => rfl
  | bound line | tryBound line => exact (pacing_setUp _ _ line).1

/-- What is told of pacings by the events of a call, its reply tells too. -/
theorem pacings_perform (session : Session α) (call : Call α) :
    pacings (session.perform call).1.allEvents =
      (call.pacing? (session.perform call).1.reply).toList := by
  have hmoved : call.isControl = false → pacings (session.perform call).1.allEvents = [] :=
    fun hshared => pacings_of_isControl (session.moves_perform hshared (.inl rfl)).isControl_eq
  cases call with
  | shared | split => exact hmoved rfl
  | setUp store line => exact (pacing_setUp session.ring _ line).2
  | setPacing pacing line =>
      show pacings (session.ring.setPacing pacing line).events =
        (Call.pacing? (.setPacing pacing line)
          (.answer (.unit (session.ring.setPacing pacing line).result))).toList
      have hend := session.ring.paced pacing line
      generalize session.ring.setPacing pacing line = outcome at hend ⊢
      cases hend with
      | installed | refused => rfl
  | setOverwrite | resetCounters | clearFailure => rfl

theorem pacings_performAll (session : Session α) (calls : List (Call α)) :
    let run := session.performAll calls
    pacings (run.1.flatMap Step.allEvents) = installed calls (run.1.map Step.reply) := by
  induction calls generalizing session with
  | nil => rfl
  | cons call later ih =>
      have hcall := session.pacings_perform call
      have hlater := ih (session.perform call).2
      simp only [performAll, List.flatMap_cons, pacings_append, hcall, hlater, installed,
        List.map_cons, List.zip_cons_cons, List.filterMap_cons]
      cases call.pacing? (session.perform call).1.reply with
      | none | some => rfl

/-- However a session is opened and whatever is called for in it, invalid pacings, setting up that
fails and stray writes included: its ring has the pacing that was accepted last since it was last
set up, or else the default one. At every moment, within calls as well, that is a valid one, and so
no wait that begins there is stopped by it or sleeps for nothing or for longer than its cap, on
whatever clock and with whatever others do. -/
theorem pacing_stays_valid (build : Build) (opening : Opening) (stores : List (Memory α))
    (calls : List (Call α)) :
    let start := opened build stores opening
    let run := start.performAll calls
    let journal := run.1.flatMap Step.allEvents
    let told := installed calls (run.1.map Step.reply)
    ((∃ fault events returned,
          Session.run build opening stores calls = .refused fault events returned) ∨
        ∃ first, Session.run build opening stores calls = start.complete first calls) ∧
      run.2.ring.pacing = told.getLastD .default ∧
      pacings journal = told ∧
      Course (Change true) start.ring journal run.2.ring ∧
      ∀ events ring, Course (Change true) start.ring events ring →
        ring.pacing = (pacings events).getLastD .default ∧ ring.WaitsInPace := by
  intro start run journal told
  have hstart : start.ring.pacing = .default := pacing_opened build stores opening
  have hcourse : Course (Change true) start.ring journal run.2.ring :=
    start.course_performAll calls fun _ _ => .inl rfl
  have htold : pacings journal = told := start.pacings_performAll calls
  have hmoments : ∀ events ring, Course (Change true) start.ring events ring →
      ring.pacing = (pacings events).getLastD .default ∧ ring.WaitsInPace := by
    intro events ring hmoment
    have hlatest := hmoment.pacing_latest
    have hvalid := hmoment.valid_pacing (by rw [hstart]; exact Pacing.valid_default)
    rw [hstart] at hlatest
    exact ⟨hlatest, Ring.waitsInPace hvalid⟩
  refine ⟨run_opened build opening stores calls, ?_, htold, hcourse, hmoments⟩
  rw [← htold]
  exact (hmoments journal run.2.ring hcourse).1

theorem pacing_stays_valid_doubling :
    let stores : List (Memory Nat) := [⟨#[0, 0], by decide⟩]
    let calls : List (Call Nat) :=
      [.setPacing (.fixed .zero) 1, .setPacing (.backoff (.ofMillis 1) (.ofMillis 4)) 2,
        .setPacing (.backoff (.ofMillis 5) (.ofMillis 4)) 3]
    let start := opened .full stores (.tryBound 7)
    let run := start.performAll calls
    let unset := start.performAll (calls ++ [.setUp none 9])
    installed calls (run.1.map Step.reply) = [.backoff (.ofMillis 1) (.ofMillis 4)] ∧
      run.2.ring.pacing = .backoff (.ofMillis 1) (.ofMillis 4) ∧ run.2.ring.WaitsInPace ∧
      unset.2.ring.pacing = .default := by
  intro stores calls start run unset
  obtain ⟨_, hlatest, _, hcourse, hmoments⟩ := pacing_stays_valid .full (.tryBound 7) stores calls
  obtain ⟨_, hafter, _⟩ :=
    pacing_stays_valid .full (.tryBound 7) stores (calls ++ [.setUp none 9])
  exact ⟨rfl, hlatest.trans rfl, (hmoments _ _ hcourse).2, hafter.trans rfl⟩

end Session

end SpscRing
