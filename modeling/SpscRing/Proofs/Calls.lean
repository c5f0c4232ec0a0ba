import SpscRing.Proofs.Waiting
import SpscRing.Session.Basic
/-!
# Calls, with the calls made meanwhile

A waiting call has other calls made during its sleeps, and these may wait in turn. An
induction over calls therefore goes down into the interludes. With it every call, and
every run of calls, is a course of single changes of the ring.
-/

namespace SpscRing

/-! ## Waiting calls as courses -/

section

open SpscRing.Ring

variable {α β : Type} {stray : Bool} {attempt : Ring α → Outcome α (Except Fault β)}
  {waitingOn : Fault} {interludes : List (Interlude α)} {ring final : Ring α}
  {verdict : Verdict β} {trace : List (Beat β (List (Answer α)))} {events : List (Event α)}

theorem moves_turn (hpeers : ∀ interlude ∈ interludes, ∀ ring, (interlude ring).Moves stray ring)
    (ring : Ring α) : (Surroundings.turn interludes ring).Moves stray ring := by
  cases interludes with
  | nil => exact Course.rest
  | cons interlude later => exact hpeers interlude List.mem_cons_self ring

/-- The mode that the attempts go by was looked at before the first round. It is still
the mode of the ring, as no call of others can change it. -/
theorem Rounds.moves {mode : Bool}
    (hattempt : ∀ ring, ring.overwrite = mode → (attempt ring).Moves stray ring)
    (hpeers : ∀ interlude ∈ interludes, ∀ ring, (interlude ring).Moves stray ring)
    (hrounds : Rounds attempt waitingOn interludes ring verdict trace events final)
    (hmode : ring.overwrite = mode) : Course (Move stray) ring events final := by
  induction hrounds with
  | unsettled | gaveUp => exact .rest
  | settled _ _ hturn htried =>
      subst hturn htried
      have hothers := moves_turn hpeers
      exact (hothers _).trans (hattempt _ ((hothers _).overwrite_eq.trans hmode))
  | again _ _ hturn htried _ _ ih =>
      subst hturn htried
      have hothers := moves_turn hpeers
      have hround := (hothers _).trans (hattempt _ ((hothers _).overwrite_eq.trans hmode))
      refine hround.trans (ih ?_ (hround.overwrite_eq.trans hmode))
      exact fun interlude hlater => hpeers interlude (List.mem_of_mem_tail hlater)

theorem Waited.moves {pacing : Pacing} {timeout : Duration}
    (hattempt : ∀ next, next.overwrite = ring.overwrite → (attempt next).Moves stray next)
    (hpeers : ∀ interlude ∈ interludes, ∀ ring, (interlude ring).Moves stray ring)
    (hwaited : Waited attempt waitingOn pacing timeout interludes ring verdict trace events final) :
    Course (Move stray) ring events final := by
  have hfirst := hattempt ring rfl
  cases hwaited with
  | atOnce htried | badPacing htried =>
      subst htried
      exact hfirst
  | later htried _ _ _ hrounds =>
      subst htried
      exact hfirst.trans (hrounds.moves hattempt hpeers hfirst.overwrite_eq)

theorem Concluded.moves {operation : Operation} {line : UInt32} {timeout : Duration}
    (hconcluded : Concluded operation waitingOn line timeout verdict ring events final) :
    Course (Move stray) ring events final := by
  cases hconcluded with
  | moved | unsettled => exact .rest
  | failed fault => exact .single (.fail ring operation fault line)
  | gaveUp =>
      have hend : Course (Move stray) ring [.timedOut timeout waitingOn] ring :=
        .single (.giveUp ring _ _)
      exact hend.step (.fail ring operation .timedOut line)

theorem WaitingCall.moves {operation : Operation} {line : UInt32} {timeout : Duration}
    (hattempt : ∀ next, next.overwrite = ring.overwrite → (attempt next).Moves stray next)
    (hpeers : ∀ interlude ∈ interludes, ∀ ring, (interlude ring).Moves stray ring)
    (hcall : WaitingCall attempt operation waitingOn line timeout interludes ring verdict trace
      events final) : Course (Move stray) ring events final := by
  obtain ⟨hwaited, hconcluded⟩ := hcall
  exact (hwaited.moves hattempt hpeers).trans hconcluded.moves

end

/-! ## Calls and what others do meanwhile -/

namespace SharedCall

variable {α : Type}

def interludes : SharedCall α → List (List (SharedCall α))
  | insertWithin _ _ _ interludes _ => interludes
  | removeWithin _ _ interludes _ => interludes
  | _ => []

section

variable {motive : SharedCall α → Prop}

-- The three theorems follow the constructors as the definition of `run` does. What is
-- known of the calls in the interludes is all that an induction step can use.
mutual

theorem induct
    (hstep : ∀ call, (∀ calls ∈ call.interludes, ∀ peer ∈ calls, motive peer) → motive call) :
    ∀ call, motive call
  | insertWithin _ _ _ interludes _ => hstep _ (inductInterludes hstep interludes)
  | removeWithin _ _ interludes _ => hstep _ (inductInterludes hstep interludes)
  | insert .. | remove .. | peek .. | insertMany .. | insertManyCount .. | removeMany ..
  | removeManyCount .. | check .. | isSound .. | query .. | forceIndices .. => hstep _ nofun

theorem inductAll
    (hstep : ∀ call, (∀ calls ∈ call.interludes, ∀ peer ∈ calls, motive peer) → motive call) :
    ∀ calls : List (SharedCall α), ∀ peer ∈ calls, motive peer
  | [] => nofun
  | call :: later => List.forall_mem_cons.mpr ⟨induct hstep call, inductAll hstep later⟩

theorem inductInterludes
    (hstep : ∀ call, (∀ calls ∈ call.interludes, ∀ peer ∈ calls, motive peer) → motive call) :
    ∀ interludes : List (List (SharedCall α)), ∀ calls ∈ interludes, ∀ peer ∈ calls, motive peer
  | [] => nofun
  | calls :: later =>
      List.forall_mem_cons.mpr ⟨inductAll hstep calls, inductInterludes hstep later⟩

end

end

theorem runInterludes_eq (scripts : List (List (SharedCall α))) :
    runInterludes scripts = scripts.map runAll := by
  induction scripts with
  | nil => rfl
  | cons calls later ih => rw [runInterludes, ih, List.map_cons]

theorem turn_runInterludes (scripts : List (List (SharedCall α))) :
    Surroundings.turn (runInterludes scripts) = runAll (scripts.headD []) := by
  cases scripts with
  | nil => rfl
  | cons calls later => rfl

theorem tail_runInterludes (scripts : List (List (SharedCall α))) :
    (runInterludes scripts).tail = runInterludes scripts.tail := by
  cases scripts with
  | nil => rfl
  | cons calls later => rfl

theorem waitingCall_insertWithin (item : α) (timeout : Duration) (clock : VirtualClock)
    (scripts : List (List (SharedCall α))) (line : UInt32) (ring : Ring α) :
    let outcome := (insertWithin item timeout clock scripts line).run ring
    ∃ verdict trace, outcome.result = .waitedInsert verdict trace ∧
      WaitingCall (·.offer item ring.overwrite) .insertWithin .full line timeout
        (runInterludes scripts) ring verdict trace outcome.events outcome.ring :=
  ⟨_, _, rfl, SpscRing.waitingCall_insertWithin VirtualClock.timepiece ring timeout _
    ⟨clock, runInterludes scripts⟩ line item⟩

theorem waitingCall_removeWithin (timeout : Duration) (clock : VirtualClock)
    (scripts : List (List (SharedCall α))) (line : UInt32) (ring : Ring α) :
    let outcome := (removeWithin timeout clock scripts line).run ring
    ∃ verdict trace, outcome.result = .waitedRemove verdict trace ∧
      WaitingCall Ring.take .removeWithin .empty line timeout (runInterludes scripts) ring
        verdict trace outcome.events outcome.ring :=
  ⟨_, _, rfl, SpscRing.waitingCall_removeWithin VirtualClock.timepiece ring timeout _
    ⟨clock, runInterludes scripts⟩ line⟩

/-! ## Steady calls -/

-- Whether calls, and all that others do during their sleeps, leave the indices to the ring.
mutual

def steady : SharedCall α → Bool
  | insertWithin _ _ _ interludes _ => steadyInterludes interludes
  | removeWithin _ _ interludes _ => steadyInterludes interludes
  | forceIndices _ _ => false
  | _ => true

def steadyAll : List (SharedCall α) → Bool
  | [] => true
  | call :: later => call.steady && steadyAll later

def steadyInterludes : List (List (SharedCall α)) → Bool
  | [] => true
  | calls :: later => steadyAll calls && steadyInterludes later

end

theorem steady_of_steadyAll {calls : List (SharedCall α)} (hsteady : steadyAll calls = true) :
    ∀ peer ∈ calls, peer.steady = true := by
  induction calls with
  | nil => nofun
  | cons call later ih =>
      rw [steadyAll, Bool.and_eq_true] at hsteady
      exact List.forall_mem_cons.mpr ⟨hsteady.1, ih hsteady.2⟩

theorem steady_of_steadyInterludes {scripts : List (List (SharedCall α))}
    (hsteady : steadyInterludes scripts = true) :
    ∀ calls ∈ scripts, ∀ peer ∈ calls, peer.steady = true := by
  induction scripts with
  | nil => nofun
  | cons calls later ih =>
      rw [steadyInterludes, Bool.and_eq_true] at hsteady
      exact List.forall_mem_cons.mpr ⟨steady_of_steadyAll hsteady.1, ih hsteady.2⟩

theorem steady_of_interludes {call : SharedCall α} (hsteady : call.steady = true) :
    ∀ calls ∈ call.interludes, ∀ peer ∈ calls, peer.steady = true := by
  cases call with
  | insertWithin | removeWithin => exact steady_of_steadyInterludes hsteady
  | _ => nofun

/-! ## Calls as courses -/

variable {stray : Bool}

theorem moves_runAll {calls : List (SharedCall α)}
    (hcalls : ∀ call ∈ calls, ∀ ring, (call.run ring).Moves stray ring) (ring : Ring α) :
    (runAll calls ring).Moves stray ring := by
  induction calls generalizing ring with
  | nil => exact Ring.Course.rest
  | cons call later ih =>
      obtain ⟨hcall, hlater⟩ := List.forall_mem_cons.mp hcalls
      exact (hcall ring).trans (ih hlater (call.run ring).ring)

theorem moves_runInterludes {scripts : List (List (SharedCall α))}
    (hpeers : ∀ calls ∈ scripts, ∀ peer ∈ calls, ∀ ring, (peer.run ring).Moves stray ring) :
    ∀ interlude ∈ runInterludes scripts, ∀ ring, (interlude ring).Moves stray ring := by
  rw [runInterludes_eq]
  exact List.forall_mem_map.mpr fun calls hcalls => moves_runAll (hpeers calls hcalls)

/-- What a call does to a ring is a course of moves, whatever others do meanwhile. -/
theorem moves_run (call : SharedCall α) (hsteady : stray = true ∨ call.steady = true) :
    ∀ ring, (call.run ring).Moves stray ring := by
  induction call using induct with
  | hstep call ih =>
      have hpeers : ∀ calls ∈ call.interludes, ∀ peer ∈ calls, ∀ ring,
          (peer.run ring).Moves stray ring := fun calls hcalls peer hpeer =>
        ih calls hcalls peer hpeer
          (hsteady.imp_right fun hsteady => steady_of_interludes hsteady calls hcalls peer hpeer)
      have hothers := moves_runInterludes hpeers
      intro ring
      cases call with
      | insert item line => exact Outcome.Moves.tracked (.offer item) .insert line
      | remove line => exact Outcome.Moves.tracked .take .remove line
      | peek offset line => exact Outcome.Moves.tracked (.query _) .peek line
      | insertMany items line =>
          exact Outcome.Moves.tracked (Ring.moves_offerAll ring items) .insertMany line
      | insertManyCount items line =>
          exact Outcome.Moves.tracked (Ring.moves_offerAll ring items) .insertMany line
      | removeMany buffer line | removeManyCount buffer line =>
          exact Ring.moves_removeMany ring buffer line
      | insertWithin item timeout clock scripts line =>
          obtain ⟨_, _, _, hcall⟩ := waitingCall_insertWithin item timeout clock scripts line ring
          -- The attempts go by the mode at the start, a move by the mode of its own ring.
          refine hcall.moves (fun next hmode => ?_) hothers
          rw [← hmode]
          exact .offer item
      | removeWithin timeout clock scripts line =>
          obtain ⟨_, _, _, hcall⟩ := waitingCall_removeWithin timeout clock scripts line ring
          exact hcall.moves (fun _ _ => .take) hothers
      | check line => exact Outcome.Moves.tracked .integrity .check line
      | isSound line => exact Outcome.Moves.tracked .integrity .check line
      | query question => exact Ring.Course.rest
      | forceIndices producer consumer =>
          have hstray : stray = true := hsteady.resolve_right (by simp [steady])
          exact Ring.Course.single (.force hstray ring producer consumer)

theorem stepAll_eq (calls : List (SharedCall α)) (ring : Ring α) :
    (stepAll calls ring).1.map Step.reply = (runAll calls ring).result ∧
      (stepAll calls ring).1.flatMap Step.events = (runAll calls ring).events ∧
      (stepAll calls ring).2 = (runAll calls ring).ring := by
  induction calls generalizing ring with
  | nil => exact ⟨rfl, rfl, rfl⟩
  | cons call later ih =>
      obtain ⟨hreplies, hevents, hring⟩ := ih (call.run ring).ring
      exact ⟨congrArg (List.cons _) hreplies, congrArg (_ ++ ·) hevents, hring⟩

end SharedCall

/-! ## Runs of calls -/

def Call.isControl {α : Type} : Call α → Bool
  | shared _ | split _ => false
  | _ => true

/-- Whether a call leaves the indices to the ring, and the ring bound to its memory. -/
def Call.steady {α : Type} : Call α → Bool
  | .shared call => call.steady
  | .split calls => SharedCall.steadyAll calls
  | .setUp _ _ => false
  | _ => true

namespace Session

open SpscRing.Ring

variable {α : Type} {stray : Bool}

theorem after_perform (session : Session α) (call : Call α) :
    (session.perform call).1.after = (session.perform call).2.ring.snapshot := by
  cases call with
  | shared | setUp | setPacing | setOverwrite | resetCounters | clearFailure | split => rfl

theorem performAll_append (session : Session α) (earlier later : List (Call α)) :
    session.performAll (earlier ++ later) =
      ((session.performAll earlier).1 ++ ((session.performAll earlier).2.performAll later).1,
        ((session.performAll earlier).2.performAll later).2) := by
  induction earlier generalizing session with
  | nil => rfl
  | cons call earlier ih =>
      simp only [List.cons_append, performAll, ih]

theorem moves_perform (session : Session α) {call : Call α} (hshared : call.isControl = false)
    (hsteady : stray = true ∨ call.steady = true) :
    Course (Move stray) session.ring (session.perform call).1.allEvents
      (session.perform call).2.ring := by
  cases call with
  | shared call => exact call.moves_run hsteady session.ring
  | split calls =>
      obtain ⟨_, hevents, hring⟩ := SharedCall.stepAll_eq calls session.ring
      have hcalls : ∀ call ∈ calls, ∀ ring, (call.run ring).Moves stray ring :=
        fun call hcall => call.moves_run
          (hsteady.imp_right fun hsteady => SharedCall.steady_of_steadyAll hsteady call hcall)
      -- A split block itself writes no log: all its events are those of its steps.
      have hrun := SharedCall.moves_runAll hcalls session.ring
      rw [Outcome.Moves, ← hevents, ← hring, ← List.append_nil (List.flatMap _ _)] at hrun
      exact hrun
  | setUp | setPacing | setOverwrite | resetCounters | clearFailure => cases hshared

theorem course_perform (session : Session α) (call : Call α)
    (hsteady : stray = true ∨ call.steady = true) :
    let (step, next) := session.perform call
    Course (Change stray) session.ring step.allEvents next.ring := by
  cases call with
  | shared | split =>
      exact Course.mono (session.moves_perform rfl hsteady) fun _ _ _ => .move
  | setUp store line =>
      have hstray : stray = true := hsteady.resolve_right (by simp [Call.steady])
      exact .single (.setUp hstray session.ring _ line)
  | setPacing pacing line => exact .single (.setPacing session.ring pacing line)
  | setOverwrite enabled => exact .single (.setOverwrite session.ring enabled)
  | resetCounters => exact .single (.resetCounters session.ring)
  | clearFailure => exact .single (.clearFailure session.ring)

theorem course_of_perform {change : Ring α → List (Event α) → Ring α → Prop} {calls : List (Call α)}
    (hcalls : ∀ call ∈ calls, ∀ session : Session α,
      Course change session.ring (session.perform call).1.allEvents (session.perform call).2.ring)
    (session : Session α) :
    let (steps, final) := session.performAll calls
    Course change session.ring (steps.flatMap Step.allEvents) final.ring := by
  induction calls generalizing session with
  | nil => exact .rest
  | cons call later ih =>
      obtain ⟨hcall, hlater⟩ := List.forall_mem_cons.mp hcalls
      exact (hcall session).trans (ih hlater (session.perform call).2)

theorem course_performAll (session : Session α) (calls : List (Call α))
    (hsteady : ∀ call ∈ calls, stray = true ∨ call.steady = true) :
    let (steps, final) := session.performAll calls
    Course (Change stray) session.ring (steps.flatMap Step.allEvents) final.ring :=
  course_of_perform (fun call hcall session => session.course_perform call (hsteady call hcall))
    session

end Session

end SpscRing
