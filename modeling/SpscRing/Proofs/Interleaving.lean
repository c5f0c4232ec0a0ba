import SpscRing.Proofs.Diagnostics
import SpscRing.Proofs.Transfers
/-!
# A waiting call is its attempts among the calls of others

What a waiting call does to its ring, and what others see of it meanwhile, is what a run
of plain calls does: an attempt, the calls of the first sleep, another attempt, and so on.
The two differ in the record of failures, which the plain calls keep for each attempt.
-/

namespace SpscRing

/-- What a beat answers for, among the answers of plain calls. -/
def Beat.answers {α β : Type} (answer : Except Fault β → Answer α) :
    Beat β (List (Answer α)) → List (Answer α)
  | attempt outcome => [answer outcome]
  | sleep _ report => report
  | now | elapsed _ => []

namespace Outcome

variable {α β : Type} (outcome : Outcome α (Except Fault β)) (operation : Operation)
  (line : UInt32)

theorem result_tracked : (outcome.tracked operation line).result = outcome.result := by
  rcases outcome with ⟨_ | _, ring, events⟩ <;> rfl

theorem seen_tracked {counters : Bool} :
    (outcome.tracked operation line).ring.seen counters = outcome.ring.seen counters := by
  rcases outcome with ⟨_ | _, ring, events⟩ <;> rfl

theorem logLines_tracked :
    logLines (outcome.tracked operation line).events = logLines outcome.events := by
  rcases outcome with ⟨_ | _, ring, events⟩
  · exact (logLines_append _ _).trans (List.append_nil _)
  · rfl

end Outcome

namespace SharedCall

variable {α : Type}

def retried (attempt : SharedCall α) : Nat → List (List (SharedCall α)) → List (SharedCall α)
  | 0, _ => []
  | sleeps + 1, scripts => scripts.headD [] ++ attempt :: retried attempt sleeps scripts.tail

/-- The plain calls that a waiting call with so many sleeps stands for. -/
def unrolled (attempt : SharedCall α) (sleeps : Nat) (scripts : List (List (SharedCall α))) :
    List (SharedCall α) :=
  attempt :: retried attempt sleeps scripts

theorem runAll_append (calls later : List (SharedCall α)) (ring : Ring α) :
    runAll (calls ++ later) ring = (runAll calls ring).andThen (runAll later) (· ++ ·) := by
  induction calls generalizing ring with
  | nil => rfl
  | cons call calls ih =>
      rw [List.cons_append, runAll, runAll]
      simp only [Outcome.andThen, Outcome.after, Outcome.map, ih, List.append_assoc]
      rfl

theorem runAll_singleton (call : SharedCall α) (ring : Ring α) :
    runAll [call] ring =
      ⟨[(call.run ring).result], (call.run ring).ring, (call.run ring).events⟩ := by
  simp [runAll, Outcome.andThen, Outcome.after, Outcome.map, Outcome.query]

end SharedCall

structure Retells {α β : Type} (answer : Except Fault β → Answer α)
    (trace : List (Beat β (List (Answer α)))) (events : List (Event α)) (final : Ring α)
    (calls : List (SharedCall α)) (flat : Ring α) : Prop where
  answers : List.Forall₂ (Answer.Agree true) (trace.flatMap (Beat.answers answer))
    (SharedCall.runAll calls flat).result
  ring : final.seen true = (SharedCall.runAll calls flat).ring.seen true
  log : logLines events = logLines (SharedCall.runAll calls flat).events

namespace Retells

variable {α β : Type} {answer : Except Fault β → Answer α}

theorem trans {trace later : List (Beat β (List (Answer α)))} {events rest : List (Event α)}
    {middle final flat : Ring α} {calls others : List (SharedCall α)}
    (hfirst : Retells answer trace events middle calls flat)
    (hsecond : Retells answer later rest final others (SharedCall.runAll calls flat).ring) :
    Retells answer (trace ++ later) (events ++ rest) final (calls ++ others) flat := by
  refine ⟨?_, ?_, ?_⟩
  · rw [SharedCall.runAll_append, List.flatMap_append]
    exact List.rel_append hfirst.answers hsecond.answers
  · rw [SharedCall.runAll_append]
    exact hsecond.ring
  · rw [SharedCall.runAll_append, logLines_append, hfirst.log, hsecond.log]
    exact (logLines_append _ _).symm

theorem silent {ring flat : Ring α} (hsame : ring.seen true = flat.seen true)
    {beat : Beat β (List (Answer α))} (hbeat : beat.answers answer = []) :
    Retells answer [beat] [] ring [] flat := by
  refine ⟨?_, hsame, rfl⟩
  rw [List.flatMap_singleton, hbeat]
  exact .nil

theorem sleep {ring flat : Ring α} (hsame : ring.seen true = flat.seen true) (length : Duration)
    (calls : List (SharedCall α)) :
    Retells answer [.sleep length (SharedCall.runAll calls ring).result]
      (SharedCall.runAll calls ring).events (SharedCall.runAll calls ring).ring calls flat := by
  obtain ⟨hanswers, hring, hevents⟩ := SharedCall.blind_runAll calls hsame
  refine ⟨?_, hring, congrArg logLines hevents⟩
  rw [List.flatMap_singleton]
  exact hanswers

theorem attempt {outcome plain : Outcome α (Except Fault β)} {call : SharedCall α} {flat : Ring α}
    (hagree : outcome.Agree true Eq plain) (operation : Operation) (line : UInt32)
    (hcall : call.run flat = (plain.tracked operation line).map answer) :
    Retells answer [.attempt outcome.result] outcome.events outcome.ring [call] flat := by
  have hresult : (call.run flat).result = answer outcome.result := by
    rw [hcall, hagree.result]
    exact congrArg answer (plain.result_tracked operation line)
  refine ⟨?_, ?_, ?_⟩
  · rw [SharedCall.runAll_singleton, hresult]
    exact .cons (.same _) .nil
  · rw [SharedCall.runAll_singleton, hcall, hagree.ring]
    exact (plain.seen_tracked operation line).symm
  · rw [SharedCall.runAll_singleton, hcall, hagree.events]
    exact (plain.logLines_tracked operation line).symm

end Retells

/-! ## Rounds of a wait -/

/-- An attempt that goes by a mode is what a plain call makes of a ring in that mode. -/
structure Attempts {α β : Type} (answer : Except Fault β → Answer α) (mode : Bool)
    (attempt : Ring α → Outcome α (Except Fault β)) (plain : SharedCall α) : Prop where
  keeps : ∀ ring, (attempt ring).ring.overwrite = ring.overwrite
  retells : ∀ ring flat, ring.overwrite = mode → ring.seen true = flat.seen true →
    Retells answer [.attempt (attempt ring).result] (attempt ring).events (attempt ring).ring
      [plain] flat

def sleepsIn {β ρ : Type} (trace : List (Beat β ρ)) : Nat := (trace.filterMap Beat.sleep?).length

theorem sleepsIn_again {α β : Type} (reading length : Duration) (report : List (Answer α))
    (outcome : Except Fault β) (trace : List (Beat β (List (Answer α)))) :
    sleepsIn (roundBeats reading length report outcome ++ trace) = sleepsIn trace + 1 := rfl

section

open SharedCall

variable {α β : Type} {answer : Except Fault β → Answer α} {mode : Bool}
  {attempt : Ring α → Outcome α (Except Fault β)} {plain : SharedCall α} {waitingOn : Fault}
  {scripts : List (List (SharedCall α))} {ring flat final : Ring α} {verdict : Verdict β}
  {trace : List (Beat β (List (Answer α)))} {events : List (Event α)}

/-- The mode was looked at once, before the wait, and still is that of the ring. -/
theorem overwrite_runAll (calls : List (SharedCall α)) (ring : Ring α) :
    (runAll calls ring).ring.overwrite = ring.overwrite := by
  have hmoves : (runAll calls ring).Moves true ring :=
    moves_runAll (fun call _ => call.moves_run (.inl rfl)) ring
  exact Ring.Course.overwrite_eq hmoves

theorem retells_round (hattempts : Attempts answer mode attempt plain)
    (hmode : ring.overwrite = mode) (hsame : ring.seen true = flat.seen true)
    (reading length : Duration) (calls : List (SharedCall α)) :
    let peers := runAll calls ring
    let tried := attempt peers.ring
    Retells answer (roundBeats reading length peers.result tried.result)
      (peers.events ++ tried.events) tried.ring (calls ++ [plain]) flat := by
  intro peers tried
  have hlook : Retells answer [.elapsed reading] [] ring [] flat := .silent hsame rfl
  have hpeers : Retells answer [.sleep length peers.result] peers.events peers.ring calls flat :=
    .sleep hsame length calls
  have htried := hattempts.retells peers.ring (runAll calls flat).ring
    ((overwrite_runAll calls ring).trans hmode) hpeers.ring
  exact (hlook.trans hpeers).trans htried

theorem Rounds.retells (hattempts : Attempts answer mode attempt plain)
    (hrounds : Rounds attempt waitingOn (runInterludes scripts) ring verdict trace events final)
    (hmode : ring.overwrite = mode) (hsame : ring.seen true = flat.seen true) :
    Retells answer trace events final (retried plain (sleepsIn trace) scripts) flat := by
  generalize hinterludes : runInterludes scripts = interludes at hrounds
  induction hrounds generalizing scripts flat with
  | unsettled => exact ⟨.nil, hsame, rfl⟩
  | gaveUp _ _ reading => exact .silent hsame rfl
  | settled reading length hturn htried =>
      subst hinterludes hturn htried
      rw [turn_runInterludes]
      exact retells_round hattempts hmode hsame reading length (scripts.headD [])
  | again reading length hturn htried _ _ ih =>
      -- The flat run is where the first round left it, on a ring that differs in its latch only.
      subst hinterludes hturn htried
      rw [turn_runInterludes] at ih ⊢
      have hround := retells_round hattempts hmode hsame reading length (scripts.headD [])
      have hkept : ∀ ring, (attempt (runAll (scripts.headD []) ring).ring).ring.overwrite =
          ring.overwrite := fun ring =>
        (hattempts.keeps _).trans (overwrite_runAll (scripts.headD []) ring)
      have hlater := ih ((hkept _).trans hmode) hround.ring (tail_runInterludes scripts).symm
      rw [sleepsIn_again, retried, ← List.singleton_append, ← List.append_assoc]
      exact hround.trans hlater

theorem Waited.retells (hattempts : Attempts answer ring.overwrite attempt plain)
    {pacing : Pacing} (hvalid : pacing.Valid) {timeout : Duration}
    (hwaited : Waited attempt waitingOn pacing timeout (runInterludes scripts) ring verdict trace
      events final) :
    Retells answer trace events final (unrolled plain (sleepsIn trace) scripts) ring := by
  have hlook : Retells answer [.now] [] ring [] ring := .silent rfl rfl
  have hfirst := hlook.trans (hattempts.retells ring ring rfl rfl)
  cases hwaited with
  | atOnce htried =>
      subst htried
      exact hfirst
  | badPacing _ _ _ hpacing => exact absurd hvalid hpacing
  | later htried _ _ _ hrounds =>
      subst htried
      exact hfirst.trans (hrounds.retells hattempts (hattempts.keeps ring) hfirst.ring)

end

/-! ## How the attempts end -/

/-- The last attempt decided, or it failed like the others when the deadline had passed. -/
def Verdict.Follows {β : Type} (waitingOn : Fault) (last : Except Fault β)
    (verdict : Verdict β) : Prop :=
  verdict = .settled last ∨ verdict = .gaveUp ∧ last = .error waitingOn

section

variable {α β : Type} {attempt : Ring α → Outcome α (Except Fault β)} {waitingOn : Fault}
  {interludes : List (Interlude α)} {ring final : Ring α} {verdict : Verdict β}
  {trace : List (Beat β (List (Answer α)))} {events : List (Event α)}

theorem Rounds.outcomes_eq (hended : verdict ≠ .unsettled)
    (hrounds : Rounds attempt waitingOn interludes ring verdict trace events final) :
    ∃ last, .error waitingOn :: trace.filterMap Beat.outcome? =
        List.replicate (sleepsIn trace) (.error waitingOn) ++ [last] ∧
      verdict.Follows waitingOn last := by
  induction hrounds with
  | unsettled => exact absurd rfl hended
  | gaveUp => exact ⟨.error waitingOn, rfl, .inr ⟨rfl, rfl⟩⟩
  | @settled _ _ _ _ _ tried => exact ⟨tried.result, rfl, .inl rfl⟩
  | again reading length hturn htried hfails _ ih =>
      obtain ⟨last, houtcomes, hfollows⟩ := ih hended
      refine ⟨last, ?_, hfollows⟩
      rw [failsWith_iff.mp hfails, sleepsIn_again, List.replicate_succ, List.cons_append,
        ← houtcomes]
      rfl

theorem Waited.outcomes_eq {pacing : Pacing} (hvalid : pacing.Valid) {timeout : Duration}
    (hended : verdict ≠ .unsettled)
    (hwaited : Waited attempt waitingOn pacing timeout interludes ring verdict trace events
      final) :
    ∃ last, trace.filterMap Beat.outcome? =
        List.replicate (sleepsIn trace) (.error waitingOn) ++ [last] ∧
      verdict.Follows waitingOn last := by
  cases hwaited with
  | @atOnce tried => exact ⟨tried.result, rfl, .inl rfl⟩
  | badPacing _ _ _ hpacing => exact absurd hvalid hpacing
  | later htried hfails _ _ hrounds =>
      obtain ⟨last, houtcomes, hfollows⟩ := hrounds.outcomes_eq hended
      refine ⟨last, ?_, hfollows⟩
      rw [failsWith_iff.mp hfails]
      exact houtcomes

theorem Concluded.latch_eq {operation : Operation} {line : UInt32} {timeout : Duration}
    {fault : Fault}
    (hconcluded : Concluded operation waitingOn line timeout verdict ring events final)
    (hfailed : verdict.result? = some (.error fault)) :
    final.latch = .ofFailure operation fault line := by
  cases hconcluded with
  | failed fault => cases hfailed; rfl
  | gaveUp => cases hfailed; rfl
  | moved | unsettled => cases hfailed

theorem Concluded.seen_eq {operation : Operation} {line : UInt32} {timeout : Duration}
    (hconcluded : Concluded operation waitingOn line timeout verdict ring events final) :
    final.seen true = ring.seen true ∧ logLines events = verdict.logLines timeout waitingOn := by
  cases hconcluded with
  | moved | failed | gaveUp | unsettled => exact ⟨rfl, rfl⟩

end

/-! ## Whole calls -/

/-- What a waiting call that has ended shares with a flat run: the ring but for its record
of failures, what others were told, and the log, to which a wait that gave up adds a line. All
its attempts but the last failed for want of room or of an item, the last decided unless
the deadline had passed, and so the call moved one item if it succeeded and none if not. -/
structure Interleaves {α β κ : Type} (answer : Except Fault β → Answer α) (moved : β → Transfer α)
    (operation : Operation) (waitingOn : Fault) (line : UInt32) (timeout : Duration)
    (scripts : List (List (SharedCall α)))
    (wait : Wait β (List (Answer α)) (Waiting α (Surroundings α κ)))
    (flat : Outcome α (List (Answer α))) : Prop where
  ring : wait.world.ring = { flat.ring with latch := wait.world.ring.latch }
  answers : List.Forall₂ (Answer.Agree true) (wait.trace.flatMap (Beat.answers answer)) flat.result
  log : logLines wait.world.events =
    logLines flat.events ++ wait.verdict.logLines timeout waitingOn
  outcomes : ∃ last,
    wait.outcomes = List.replicate wait.sleeps.length (.error waitingOn) ++ [last] ∧
      wait.verdict.Follows waitingOn last
  moves : transfers wait.world.events =
    SharedCall.transfersMeanwhile scripts (reports wait.trace) ++
      Transfer.ofVerdict moved wait.verdict
  latch : ∀ fault, wait.verdict.result? = some (.error fault) →
    wait.world.ring.latch = .ofFailure operation fault line

section

open SharedCall

variable {α β κ : Type}

theorem Ring.eq_of_seen {ring flat : Ring α} (hsame : ring.seen true = flat.seen true) :
    ring = { flat with latch := ring.latch } := by
  rcases ring with ⟨storage, producer, consumer, overwrite, pacing, latch, recorder⟩
  simp only [Ring.seen, Ring.mk.injEq] at hsame ⊢
  simp_all

theorem interleaves_of_waitingCall {answer : Except Fault β → Answer α} {moved : β → Transfer α}
    {operation : Operation} {waitingOn : Fault} {line : UInt32} {timeout : Duration}
    {attempt : Ring α → Outcome α (Except Fault β)} {plain : SharedCall α} {ring : Ring α}
    {scripts : List (List (SharedCall α))}
    {wait : Wait β (List (Answer α)) (Waiting α (Surroundings α κ))}
    (hattempts : Attempts answer ring.overwrite attempt plain)
    (hmoved : ∀ ring,
      transfers (attempt ring).events = Transfer.ofResult moved (attempt ring).result)
    (hvalid : ring.pacing.Valid) (hended : wait.verdict ≠ .unsettled)
    (hcall : WaitingCall attempt operation waitingOn line timeout (runInterludes scripts) ring
      wait.verdict wait.trace wait.world.events wait.world.ring) :
    Interleaves answer moved operation waitingOn line timeout scripts wait
      (runAll (unrolled plain wait.sleeps.length scripts) ring) := by
  have hpeers : ∀ calls ∈ scripts, ∀ ring,
      transfers (runAll calls ring).events = transfersAll calls (runAll calls ring).result :=
    fun calls _ => transfers_runAll fun call _ => call.transfers_run
  have hmoves := hcall.transfers_eq hmoved hpeers
  generalize hevents : wait.world.events = journal at hcall
  generalize hring : wait.world.ring = final at hcall
  obtain ⟨hwaited, hconcluded⟩ := hcall
  obtain ⟨hanswers, hsame, hlog⟩ := hwaited.retells hattempts hvalid
  obtain ⟨hseen, hclosing⟩ := hconcluded.seen_eq
  refine ⟨?_, hanswers, ?_, hwaited.outcomes_eq hvalid hended, hmoves, ?_⟩
  · exact Ring.eq_of_seen (by rw [hring, hseen, hsame]; rfl)
  · rw [hevents, logLines_append, hlog, hclosing]
    rfl
  · intro fault hfailed
    rw [hring]
    exact hconcluded.latch_eq hfailed

theorem attempts_insert (item : α) (mode : Bool) (line : UInt32) :
    Attempts .unit mode (fun ring : Ring α => ring.offer item mode) (.insert item line) where
  keeps ring := Ring.overwrite_offer ring item mode
  retells := by
    rintro ring flat rfl hsame
    have hoffer : Blind true Eq fun other : Ring α => other.offer item ring.overwrite :=
      .of_seen fun other => other.seen_offer true item ring.overwrite
    refine .attempt (hoffer hsame) .insert line ?_
    rw [Ring.overwrite_eq_of_seen hsame]
    rfl

theorem attempts_remove (mode : Bool) (line : UInt32) :
    Attempts .item mode (Ring.take (α := α)) (.remove line) where
  keeps := Ring.overwrite_take
  retells := by
    intro ring flat _ hsame
    have htake : Blind true Eq fun other : Ring α => other.take :=
      .of_seen fun other => other.seen_take true
    exact .attempt (htake hsame) .remove line rfl

/-- On a ring in any state, with a pacing that can be used, over any clock and whatever
calls others make during the sleeps: a waiting call that has ended shares everything with
the run of its attempts and the calls of others one after another. -/
theorem waiting_interleaves {ι : Type} (timepiece : Clock κ ι Unit) (ring : Ring α)
    (hvalid : ring.pacing.Valid) (timeout : Duration) (rounds : Nat) (clock : κ)
    (scripts : List (List (SharedCall α))) (line : UInt32) :
    (∀ item,
      let wait := ring.insertWithin item timeout (Surroundings.clockwork timepiece) rounds
        ⟨clock, runInterludes scripts⟩ line
      wait.verdict ≠ .unsettled →
        Interleaves .unit (fun _ => .accepted item) .insertWithin .full line timeout scripts wait
          (runAll (unrolled (.insert item line) wait.sleeps.length scripts) ring)) ∧
      let wait := ring.removeWithin timeout (Surroundings.clockwork timepiece) rounds
        ⟨clock, runInterludes scripts⟩ line
      wait.verdict ≠ .unsettled →
        Interleaves .item .delivered .removeWithin .empty line timeout scripts wait
          (runAll (unrolled (.remove line) wait.sleeps.length scripts) ring) := by
  constructor
  · intro item wait hended
    have hcall := SpscRing.waitingCall_insertWithin timepiece ring timeout rounds
      ⟨clock, runInterludes scripts⟩ line item
    exact interleaves_of_waitingCall (attempts_insert item ring.overwrite line)
      (fun other => other.transfers_offer item ring.overwrite) hvalid hended hcall
  · intro wait hended
    have hcall := SpscRing.waitingCall_removeWithin timepiece ring timeout rounds
      ⟨clock, runInterludes scripts⟩ line
    exact interleaves_of_waitingCall (attempts_remove ring.overwrite line) Ring.transfers_take
      hvalid hended hcall

def Ring.brimful : Ring Nat where
  storage := .lent ⟨⟨#[5, 0], by decide⟩, by decide⟩
  producer := 1
  consumer := 0
  overwrite := false
  pacing := .default
  latch := .clear
  recorder := .on .zero

theorem waiting_interleaves_brimful :
    let scripts : List (List (SharedCall Nat)) := [[.query .counters], [.remove 5]]
    let surroundings := ⟨VirtualClock.exact .zero, runInterludes scripts⟩
    let clock := Surroundings.clockwork VirtualClock.timepiece
    let inserted := Ring.brimful.insertWithin 7 (.ofMillis 3) clock 9 surroundings 6
    let removed := Ring.brimful.removeWithin (.ofMillis 3) clock 9 surroundings 6
    Ring.brimful.pacing.Valid ∧ inserted.verdict ≠ .unsettled ∧ removed.verdict ≠ .unsettled ∧
      Interleaves .unit (fun _ => .accepted 7) .insertWithin .full 6 (.ofMillis 3) scripts
        inserted
        (runAll [.insert 7 6, .query .counters, .insert 7 6, .remove 5, .insert 7 6]
          Ring.brimful) ∧
      Interleaves .item .delivered .removeWithin .empty 6 (.ofMillis 3) scripts removed
        (runAll [.remove 6] Ring.brimful) := by
  intro scripts surroundings clock inserted removed
  have hinserted : inserted.verdict = .settled (.ok ()) := rfl
  have hremoved : removed.verdict = .settled (.ok 5) := rfl
  have hwaits : inserted.verdict ≠ .unsettled ∧ removed.verdict ≠ .unsettled := by
    rw [hinserted, hremoved]
    exact ⟨nofun, nofun⟩
  obtain ⟨hinsert, hremove⟩ := waiting_interleaves VirtualClock.timepiece Ring.brimful (by decide)
    (.ofMillis 3) 9 (.exact .zero) scripts 6
  exact ⟨by decide, hwaits.1, hwaits.2, hinsert 7 hwaits.1, hremove hwaits.2⟩

end

end SpscRing
