import SpscRing.Proofs.Decision
import SpscRing.Proofs.Ledger
/-!
# The last failure

Calls that fail say so by their answers. Read in order, with the calls that others make
during waits, these say at each time which failure was the last: the one that completed last
since the record was cleared. The record tells just that, whenever it is asked or shown.
-/

namespace SpscRing

/-- What a session says about its failures. -/
inductive Notice where
  | failed (report : Report)
  | cleared
  /-- The record was asked, or shown after a call. -/
  | told (report : Report)
  deriving DecidableEq, Repr

namespace Notice

def next (last : Report) : Notice → Report
  | failed report => report
  | cleared => .clear
  | told _ => last

def latest (notices : List Notice) : Report := notices.foldl next .clear

/-- Whenever the record tells something, it tells the last failure. -/
def Truthful (notices : List Notice) : Prop :=
  ∀ earlier report later, notices = earlier ++ told report :: later → report = latest earlier

end Notice

/-- A record that follows the notices: it changes with them, and tells what it is. -/
inductive Follows : Report → List Notice → Report → Prop where
  | rest (last : Report) : Follows last [] last
  | failed (last : Report) {report final : Report} {later : List Notice}
      (hlater : Follows report later final) : Follows last (.failed report :: later) final
  | cleared (last : Report) {final : Report} {later : List Notice}
      (hlater : Follows .clear later final) : Follows last (.cleared :: later) final
  | told {last final : Report} {later : List Notice} (hlater : Follows last later final) :
      Follows last (.told last :: later) final

namespace Follows

variable {before middle after : Report} {notices later : List Notice}

theorem trans (hfirst : Follows before notices middle) (hsecond : Follows middle later after) :
    Follows before (notices ++ later) after := by
  induction hfirst with
  | rest => exact hsecond
  | failed last _ ih => exact .failed last (ih hsecond)
  | cleared last _ ih => exact .cleared last (ih hsecond)
  | told _ ih => exact .told (ih hsecond)

theorem told_eq {earlier : List Notice} {report : Report}
    (hfollows : Follows before (earlier ++ .told report :: later) after) :
    report = earlier.foldl Notice.next before := by
  induction earlier generalizing before with
  | nil =>
      cases hfollows
      rfl
  | cons notice earlier ih =>
      cases hfollows with
      | failed _ hlater | cleared _ hlater | told hlater => exact ih hlater

theorem truthful (hfollows : Follows .clear notices after) : Notice.Truthful notices := by
  rintro earlier report later rfl
  exact hfollows.told_eq

end Follows

/-! ## Notices by answers -/

def Answer.failure? {α : Type} : Answer α → Option Fault
  | unit result => SpscRing.failure? result
  | item result => SpscRing.failure? result
  | count result => SpscRing.failure? result
  | buffer result _ => SpscRing.failure? result
  | waitedInsert verdict _ => verdict.result?.bind SpscRing.failure?
  | waitedRemove verdict _ => verdict.result?.bind SpscRing.failure?
  | _ => none

structure Origin where
  operation : Operation
  line : UInt32
  deriving DecidableEq, Repr

def SharedCall.origin? {α : Type} : SharedCall α → Option Origin
  | insert _ line => some ⟨.insert, line⟩
  | remove line => some ⟨.remove, line⟩
  | peek _ line => some ⟨.peek, line⟩
  | insertMany _ line | insertManyCount _ line => some ⟨.insertMany, line⟩
  | removeMany _ line | removeManyCount _ line => some ⟨.removeMany, line⟩
  | insertWithin _ _ _ _ line => some ⟨.insertWithin, line⟩
  | removeWithin _ _ _ line => some ⟨.removeWithin, line⟩
  | check line | isSound line => some ⟨.check, line⟩
  | query _ | forceIndices _ _ => none

def Call.origin? {α : Type} : Call α → Option Origin
  | shared call => call.origin?
  | setUp _ line => some ⟨.setUp, line⟩
  | setPacing _ line => some ⟨.setPacing, line⟩
  | setOverwrite _ | resetCounters | clearFailure | split _ => none

def Call.clears {α : Type} : Call α → Bool
  | setUp _ _ | clearFailure => true
  | _ => false

namespace Notice

variable {α : Type}

def ofFailure? : Option Origin → Option Fault → List Notice
  | some origin, some fault => [failed (.ofFailure origin.operation fault origin.line)]
  | _, _ => []

/-- What an answer says about failures: its own, or the last one if that was asked for. -/
def ofAnswer (origin? : Option Origin) : Answer α → List Notice
  | .report report => [told report]
  | answer => ofFailure? origin? answer.failure?

/-- How failures are read off a session: calls that fail say so at their end, and the record
is shown after every call. The attempts of a wait say nothing by themselves. -/
def reading (α : Type) : Reading α Notice where
  offered _ _ := []
  taken _ := []
  ended call := ofAnswer call.origin?
  control call answer :=
    (if call.clears then [cleared] else []) ++ ofAnswer call.origin? answer
  shown snapshot := [told snapshot.lastFailure]

end Notice

/-! ## The record -/

namespace Ring

variable {α : Type}

theorem latch_offer (ring : Ring α) (item : α) (overwrite : Bool) :
    (ring.offer item overwrite).ring.latch = ring.latch := by
  have hend := offered ring item overwrite
  generalize ring.offer item overwrite = outcome at hend ⊢
  cases hend with
  | inert | corrupted | full | accepted => rfl
  | replaced =>
      show ring.release.latch = ring.latch
      rw [release_eq]

theorem latch_take (ring : Ring α) : ring.take.ring.latch = ring.latch := by
  have hend := taken ring
  generalize ring.take = outcome at hend ⊢
  cases hend with
  | inert | corrupted | empty => rfl
  | delivered =>
      show ring.release.latch = ring.latch
      rw [release_eq]

theorem latch_offerEach (overwrite : Bool) (items : List α) (ring : Ring α) :
    (offerEach overwrite items ring).ring.latch = ring.latch := by
  induction items generalizing ring with
  | nil => rfl
  | cons item later ih =>
      have hoffer := ring.latch_offer item overwrite
      rw [offerEach]
      generalize ring.offer item overwrite = outcome at hoffer
      obtain ⟨_ | _, next, events⟩ := outcome
      · exact hoffer
      · exact (ih next).trans hoffer

theorem latch_takeEach (limit : Nat) (ring : Ring α) :
    (takeEach limit ring).ring.latch = ring.latch := by
  induction limit generalizing ring with
  | zero => rfl
  | succ limit ih =>
      have htake := ring.latch_take
      rw [takeEach]
      generalize ring.take = outcome at htake
      obtain ⟨_ | _, next, events⟩ := outcome
      · exact htake
      · exact (ih next).trans htake

theorem latch_offerAll (ring : Ring α) (items : List α) :
    (ring.offerAll items).ring.latch = ring.latch := by
  unfold offerAll
  split
  · rfl
  · split
    · rfl
    · exact latch_offerEach ring.overwrite items ring

theorem latch_takeAll (ring : Ring α) (limit : Nat) :
    (ring.takeAll limit).ring.latch = ring.latch := by
  unfold takeAll
  split
  · rfl
  · split
    · rfl
    · exact latch_takeEach limit ring

end Ring

def failureLedger (α : Type) : Ledger α Notice where
  toReading := Notice.reading α
  holds ring _ notices final := Follows ring.lastFailure notices final.lastFailure
  rest ring := .rest ring.lastFailure
  trans := .trans

section

open Notice

variable {α β : Type} {ring : Ring α}

theorem follows_of_latch {final : Ring α} (hlatch : final.latch = ring.latch) :
    Follows ring.lastFailure [] final.lastFailure := by
  have hlast : final.lastFailure = ring.lastFailure := congrArg FaultLatch.report hlatch
  rw [hlast]
  exact .rest _

theorem follows_failed (last : Report) (ring : Ring α) (operation : Operation) (fault : Fault)
    (line : UInt32) :
    Follows last [failed (.ofFailure operation fault line)]
      ({ ring with latch := .ofFailure operation fault line } : Ring α).lastFailure := by
  rw [Ring.lastFailure, FaultLatch.report_ofFailure]
  exact .failed last (.rest _)

/-- A call whose attempt left the record alone says all that it did to it. -/
theorem follows_tracked {outcome : Outcome α (Except Fault β)}
    (hlatch : outcome.ring.latch = ring.latch) (operation : Operation) (line : UInt32) :
    Follows ring.lastFailure
      (ofFailure? (some ⟨operation, line⟩) (failure? (outcome.tracked operation line).result))
      (outcome.tracked operation line).ring.lastFailure := by
  obtain ⟨fault | result, next, events⟩ := outcome
  · exact follows_failed ring.lastFailure next operation fault line
  · exact follows_of_latch hlatch

theorem follows_removeMany (ring : Ring α) (buffer : List α) (line : UInt32) :
    Follows ring.lastFailure
      (ofFailure? (some ⟨.removeMany, line⟩) (failure? (ring.removeMany buffer line).result.1))
      (ring.removeMany buffer line).ring.lastFailure := by
  have htracked := follows_tracked (ring.latch_takeAll buffer.length) .removeMany line
  rw [failure?_tracked, ring.failure?_takeAll, ← ring.failure?_removeMany buffer line] at htracked
  rw [Ring.ring_removeMany]
  exact htracked

theorem follows_concluded {operation : Operation} {waitingOn : Fault} {line : UInt32}
    {timeout : Duration} {verdict : Verdict β} {closing : List (Event α)} {final : Ring α}
    (hconcluded : Concluded operation waitingOn line timeout verdict ring closing final) :
    Follows ring.lastFailure
      (ofFailure? (some ⟨operation, line⟩) (verdict.result?.bind failure?)) final.lastFailure := by
  cases hconcluded with
  | moved | unsettled => exact .rest _
  | failed fault => exact follows_failed ring.lastFailure ring operation fault line
  | gaveUp => exact follows_failed ring.lastFailure ring operation .timedOut line

theorem follows_direct {call : SharedCall α} (hdirect : call.isDirect = true) :
    (failureLedger α).Accounts call.run (ofAnswer call.origin?) := by
  intro ring
  cases call with
  | insert item line => exact follows_tracked (ring.latch_offer item ring.overwrite) .insert line
  | remove line => exact follows_tracked ring.latch_take .remove line
  | peek offset line =>
      have hquery : (Outcome.query ring (ring.itemAt offset)).ring.latch = ring.latch := rfl
      exact follows_tracked hquery .peek line
  | insertMany items line => exact follows_tracked (ring.latch_offerAll items) .insertMany line
  | removeMany buffer line => exact follows_removeMany ring buffer line
  | check line => exact follows_tracked (congrArg Ring.latch ring.ring_integrity) .check line
  | query question =>
      cases question with
      | lastFailure => exact .told (.rest _)
      | _ => exact .rest _
  | forceIndices producer consumer => exact .rest _
  | insertManyCount | removeManyCount | isSound | insertWithin | removeWithin => cases hdirect

theorem follows_setUp (ring : Ring α) (storage : Storage α) (line : UInt32) :
    Follows ring.lastFailure
      (cleared :: ofFailure? (some ⟨.setUp, line⟩) (failure? (ring.setUp storage line).result))
      (ring.setUp storage line).ring.lastFailure := by
  cases storage with
  | absent => exact .cleared _ (follows_failed .clear (ring.rebind .absent) .setUp .noStorage line)
  | noCells =>
      exact .cleared _ (follows_failed .clear (ring.rebind .noCells) .setUp .emptyStorage line)
  | lent slots => exact .cleared _ (.rest _)

theorem follows_setPacing (ring : Ring α) (pacing : Pacing) (line : UInt32) :
    Follows ring.lastFailure
      (ofFailure? (some ⟨.setPacing, line⟩) (failure? (ring.setPacing pacing line).result))
      (ring.setPacing pacing line).ring.lastFailure := by
  have hend := ring.paced pacing line
  generalize ring.setPacing pacing line = outcome at hend ⊢
  cases hend with
  | installed => exact .rest _
  | refused => exact follows_failed ring.lastFailure ring .setPacing _ line

theorem follows_control {call : Call α} (session : Session α) (hcontrol : call.isControl = true) :
    (failureLedger α).holds session.ring (session.perform call).1.allEvents
      ((Notice.reading α).reply call (session.perform call).1.reply)
      (session.perform call).2.ring := by
  cases call with
  | setUp store line => exact follows_setUp session.ring _ line
  | setPacing pacing line => exact follows_setPacing session.ring pacing line
  | setOverwrite | resetCounters => exact .rest _
  | clearFailure => exact .cleared _ (.rest _)
  | shared | split => cases hcontrol

theorem kept_failureLedger : (failureLedger α).Kept where
  offer item mode ring := follows_of_latch (ring.latch_offer item mode)
  take ring := follows_of_latch ring.latch_take
  insertWithin _ _ _ _ _ _ _ _ _ _ := follows_concluded
  removeWithin _ _ _ _ _ _ _ _ _ := follows_concluded
  direct _ := follows_direct
  control _ := follows_control
  shown ring := .told (.rest ring.lastFailure)

end

/-! ## Sessions -/

/-- What the opening of a session says about failures. Where it does not answer by itself, its
failure is that of setting the ring up over the first store. -/
def Opening.notices {α : Type} (build : Build) (stores : List (Memory α)) : Opening → List Notice
  | unbound => []
  | bound line | tryBound line =>
    let outcome := ((Session.fresh build stores).lend (some 0) line).1
    .cleared :: Notice.ofFailure? (some ⟨.setUp, line⟩) (failure? outcome.result)

def Transcript.notices {α : Type} (opening : List Notice) (calls : List (Call α)) :
    Transcript α → List Notice
  | completed (opened :: steps) _ =>
    opening ++ .told opened.after.lastFailure :: (Notice.reading α).steps calls steps
  | _ => []

namespace Session

variable {α : Type}

theorem truthful_complete (session : Session α) (opened : Step α (Reply α))
    {opening : List Notice} (hopening : Follows .clear opening session.ring.lastFailure)
    (hopened : opened.after = session.ring.snapshot) (calls : List (Call α)) :
    Notice.Truthful ((session.complete opened (calls.map Call.explicit)).notices opening
      (calls.map Call.explicit)) := by
  have hshown : opened.after.lastFailure = session.ring.lastFailure :=
    congrArg Snapshot.lastFailure hopened
  have hcalls := Follows.told (Ledger.holds_performAll kept_failureLedger calls session)
  rw [← hshown] at hopening hcalls
  exact (hopening.trans hcalls).truthful

/-- Whenever the last failure is asked for or shown, from the opening of a session on, it is the
one that completed last since it was cleared: a call's own fault, operation and line, which the
record keeps without loss. Calls that do not tell how they failed are recorded like those that
do, and a wait is recorded once, where it ends. -/
theorem last_failure_is_latest (build : Build) (opening : Opening) (stores : List (Memory α))
    (calls : List (Call α)) :
    let explicit := calls.map Call.explicit
    let transcript := run build opening stores explicit
    (run build opening stores calls).Like (Answer.Like Answer.Brief) Eq transcript ∧
      Notice.Truthful (transcript.notices (opening.notices build stores) explicit) ∧
      FaultLatch.clear.report = .clear ∧
      ∀ operation fault line,
        (FaultLatch.ofFailure operation fault line).report = .ofFailure operation fault line := by
  refine ⟨run_explicit build opening stores calls, ?_, rfl, FaultLatch.report_ofFailure⟩
  have hsetUp : ∀ line, Follows .clear
      (.cleared :: Notice.ofFailure? (some ⟨.setUp, line⟩)
        (failure? ((fresh build stores).lend (some 0) line).1.result))
      ((fresh build stores).lend (some 0) line).2.ring.lastFailure :=
    fun line => follows_setUp (fresh build stores).ring _ line
  unfold run
  cases opening with
  | unbound => exact truthful_complete (fresh build stores) _ (.rest .clear) rfl calls
  | bound line => exact truthful_complete _ _ (hsetUp line) rfl calls
  | tryBound line =>
      dsimp only
      split
      · exact Follows.truthful (.rest .clear)
      · exact truthful_complete _ _ (hsetUp line) rfl calls

-- A wait that times out is recorded over what failed for others during its sleep.
example :
    let stores : List (Memory Nat) := [⟨#[0, 0], by decide⟩]
    let calls : List (Call Nat) :=
      [.shared (.insert 7 3),
        .shared (.insertWithin 9 (.ofMillis 1) (.exact .zero) [[.insert 5 4]] 8)]
    (run .full (.bound 2) stores calls).notices ((Opening.bound 2).notices .full stores) calls =
      [.cleared, .told .clear, .told .clear, .failed (.ofFailure .insert .full 4),
        .failed (.ofFailure .insertWithin .timedOut 8),
        .told (.ofFailure .insertWithin .timedOut 8)] := by
  decide

end Session

end SpscRing
