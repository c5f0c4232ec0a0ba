import SpscRing.Proofs.Explicit
/-!
# Ledgers

From the answers of explicit calls, and from what is seen after each, a list of entries is
read: down into the traces of waits, where the attempts of the caller and the calls of
others stand in the order in which they were made. If the entries of each single thing
account for what it did to the ring, so do those of a whole session.
-/

namespace SpscRing

/-- What is entered for each thing that an answer tells of. A wait is read attempt by attempt,
and once more where it ends. -/
structure Reading (α γ : Type) where
  offered : α → Except Fault Unit → List γ
  taken : Except Fault α → List γ
  ended : SharedCall α → Answer α → List γ
  control : Call α → Answer α → List γ
  /-- What is entered for what can be seen after a call. -/
  shown : Snapshot → List γ

def readTrace {α β γ : Type} (tried : Except Fault β → List γ) :
    List (List (Answer α) → List γ) → List (Beat β (List (Answer α))) → List γ
  | _, [] => []
  | readers, .attempt outcome :: beats => tried outcome ++ readTrace tried readers beats
  | readers, .sleep _ report :: beats =>
    readers.headD (fun _ => []) report ++ readTrace tried readers.tail beats
  | readers, .now :: beats => readTrace tried readers beats
  | readers, .elapsed _ :: beats => readTrace tried readers beats

theorem readTrace_round {α β γ : Type} {tried : Except Fault β → List γ}
    {readers : List (List (Answer α) → List γ)} (reading length : Duration)
    (report : List (Answer α)) (outcome : Except Fault β)
    (later : List (Beat β (List (Answer α)))) :
    readTrace tried readers (roundBeats reading length report outcome ++ later) =
      readers.headD (fun _ => []) report ++ (tried outcome ++ readTrace tried readers.tail later) :=
  rfl

namespace Reading

variable {α γ : Type} (reading : Reading α γ)

mutual

def call : SharedCall α → (Answer α → List γ)
  | .insertWithin item timeout clock interludes line => fun answer =>
    match answer with
    | .waitedInsert verdict trace =>
      readTrace (reading.offered item) (each interludes) trace ++
        reading.ended (.insertWithin item timeout clock interludes line)
          (.waitedInsert verdict trace)
    | _ => []
  | .removeWithin timeout clock interludes line => fun answer =>
    match answer with
    | .waitedRemove verdict trace =>
      readTrace reading.taken (each interludes) trace ++
        reading.ended (.removeWithin timeout clock interludes line) (.waitedRemove verdict trace)
    | _ => []
  | other => reading.ended other

def all : List (SharedCall α) → (List (Answer α) → List γ)
  | [] => fun _ => []
  | first :: later => fun
    | [] => []
    | answer :: answers => call first answer ++ all later answers

def each : List (List (SharedCall α)) → List (List (Answer α) → List γ)
  | [] => []
  | calls :: later => all calls :: each later

end

def parts : List (SharedCall α) → List (Step α (Answer α)) → List γ
  | first :: later, step :: steps =>
    reading.call first step.reply ++ reading.shown step.after ++ parts later steps
  | _, _ => []

def reply : Call α → Reply α → List γ
  | .shared call, .answer answer => reading.call call answer
  | .split calls, .parts steps => reading.parts calls steps
  | call, .answer answer => reading.control call answer
  | _, _ => []

def steps : List (Call α) → List (Step α (Reply α)) → List γ
  | first :: later, step :: rest =>
    reading.reply first step.reply ++ reading.shown step.after ++ steps later rest
  | _, _ => []

end Reading

/-- A reading whose entries account for what happens to a ring: from which ring, by which
events, to which other. -/
structure Ledger (α γ : Type) extends Reading α γ where
  holds : Ring α → List (Event α) → List γ → Ring α → Prop
  rest : ∀ ring, holds ring [] [] ring
  trans : ∀ {ring middle final events later entries more}, holds ring events entries middle →
    holds middle later more final → holds ring (events ++ later) (entries ++ more) final

/-- Whether a call tells in one step how it ended, and how it failed if it did. -/
def SharedCall.isDirect {α : Type} : SharedCall α → Bool
  | insertManyCount _ _ | removeManyCount _ _ | isSound _ => false
  | insertWithin _ _ _ _ _ | removeWithin _ _ _ _ => false
  | _ => true

namespace Ledger

variable {α β γ : Type}

def Accounts (ledger : Ledger α γ) (action : Ring α → Outcome α β) (entries : β → List γ) : Prop :=
  ∀ ring, ledger.holds ring (action ring).events (entries (action ring).result) (action ring).ring

structure Kept (ledger : Ledger α γ) : Prop where
  offer : ∀ item mode, ledger.Accounts (Ring.offer · item mode) (ledger.offered item)
  take : ledger.Accounts Ring.take ledger.taken
  insertWithin : ∀ item timeout clock interludes line trace {verdict ring closing final},
    Concluded .insertWithin .full line timeout verdict ring closing final →
      ledger.holds ring closing
        (ledger.ended (.insertWithin item timeout clock interludes line)
          (.waitedInsert verdict trace)) final
  removeWithin : ∀ timeout clock interludes line trace {verdict ring closing final},
    Concluded .removeWithin .empty line timeout verdict ring closing final →
      ledger.holds ring closing
        (ledger.ended (.removeWithin timeout clock interludes line)
          (.waitedRemove verdict trace)) final
  direct : ∀ call : SharedCall α, call.isDirect = true →
    ledger.Accounts call.run (ledger.ended call)
  control : ∀ (call : Call α) (session : Session α), call.isControl = true →
    ledger.holds session.ring (session.perform call).1.allEvents
      (ledger.reply call (session.perform call).1.reply) (session.perform call).2.ring
  shown : ∀ ring : Ring α, ledger.holds ring [] (ledger.shown ring.snapshot) ring

section

open SharedCall

variable {ledger : Ledger α γ} {attempt : Ring α → Outcome α (Except Fault β)}
  {tried : Except Fault β → List γ} {waitingOn : Fault} {scripts : List (List (SharedCall α))}
  {ring final : Ring α} {verdict : Verdict β} {trace : List (Beat β (List (Answer α)))}
  {events : List (Event α)}

theorem headD_each (scripts : List (List (SharedCall α))) :
    (ledger.each scripts).headD (fun _ => []) = ledger.all (scripts.headD []) := by
  cases scripts with
  | nil => rfl
  | cons calls later => rfl

theorem tail_each (scripts : List (List (SharedCall α))) :
    (ledger.each scripts).tail = ledger.each scripts.tail := by
  cases scripts with
  | nil => rfl
  | cons calls later => rfl

theorem accounts_turn
    (hpeers : ∀ calls ∈ scripts, ledger.Accounts (runAll calls) (ledger.all calls)) :
    ledger.Accounts (Surroundings.turn (runInterludes scripts))
      ((ledger.each scripts).headD fun _ => []) := by
  rw [turn_runInterludes, headD_each]
  cases scripts with
  | nil => exact ledger.rest
  | cons calls later => exact hpeers calls List.mem_cons_self

/-- Round by round, the entries for the calls of others and then those for the attempt. -/
theorem holds_rounds
    (hattempt : ledger.Accounts attempt tried)
    (hpeers : ∀ calls ∈ scripts, ledger.Accounts (runAll calls) (ledger.all calls))
    (hrounds : Rounds attempt waitingOn (runInterludes scripts) ring verdict trace events final) :
    ledger.holds ring events (readTrace tried (ledger.each scripts) trace) final := by
  generalize hinterludes : runInterludes scripts = interludes at hrounds
  induction hrounds generalizing scripts with
  | unsettled | gaveUp => exact ledger.rest _
  | @settled _ start reading length _ _ hturn htried =>
      subst hinterludes hturn htried
      have hround := ledger.trans (accounts_turn hpeers start) (hattempt _)
      rw [← List.append_nil (roundBeats _ _ _ _), readTrace_round]
      rw [← List.append_nil (tried _)] at hround
      exact hround
  | @again _ start _ reading length _ _ _ _ _ hturn htried _ _ ih =>
      subst hinterludes hturn htried
      have hround := ledger.trans (accounts_turn hpeers start) (hattempt _)
      have hlater := ih (fun calls hcalls => hpeers calls (List.mem_of_mem_tail hcalls))
        (tail_runInterludes scripts).symm
      rw [readTrace_round, tail_each, ← List.append_assoc]
      exact ledger.trans hround hlater

theorem holds_waited {pacing : Pacing} {timeout : Duration}
    (hattempt : ledger.Accounts attempt tried)
    (hpeers : ∀ calls ∈ scripts, ledger.Accounts (runAll calls) (ledger.all calls))
    (hwaited : Waited attempt waitingOn pacing timeout (runInterludes scripts) ring verdict trace
      events final) :
    ledger.holds ring events (readTrace tried (ledger.each scripts) trace) final := by
  have hfirst := hattempt ring
  cases hwaited with
  | atOnce htried | badPacing htried =>
      subst htried
      rw [← List.append_nil (tried _)] at hfirst
      exact hfirst
  | later htried _ _ _ hrounds =>
      subst htried
      exact ledger.trans hfirst (holds_rounds hattempt hpeers hrounds)

theorem holds_waitingCall {operation : Operation} {line : UInt32} {timeout : Duration}
    {closing : List γ}
    (hattempt : ledger.Accounts attempt tried)
    (hpeers : ∀ calls ∈ scripts, ledger.Accounts (runAll calls) (ledger.all calls))
    (hclosing : ∀ {ring events final},
      Concluded operation waitingOn line timeout verdict ring events final →
        ledger.holds ring events closing final)
    (hcall : WaitingCall attempt operation waitingOn line timeout (runInterludes scripts) ring
      verdict trace events final) :
    ledger.holds ring events (readTrace tried (ledger.each scripts) trace ++ closing) final := by
  obtain ⟨hwaited, hconcluded⟩ := hcall
  exact ledger.trans (holds_waited hattempt hpeers hwaited) (hclosing hconcluded)

/-! ## Calls -/

theorem accounts_runAll {calls : List (SharedCall α)}
    (hcalls : ∀ call ∈ calls, ledger.Accounts call.explicit.run (ledger.call call.explicit)) :
    ledger.Accounts (runAll (explicitAll calls)) (ledger.all (explicitAll calls)) := by
  intro ring
  induction calls generalizing ring with
  | nil => exact ledger.rest ring
  | cons call later ih =>
      obtain ⟨hcall, hlater⟩ := List.forall_mem_cons.mp hcalls
      exact ledger.trans (hcall ring) (ih hlater _)

theorem accounts_interludes
    (hpeers : ∀ calls ∈ scripts, ∀ peer ∈ calls,
      ledger.Accounts peer.explicit.run (ledger.call peer.explicit)) :
    ∀ calls ∈ explicitInterludes scripts, ledger.Accounts (runAll calls) (ledger.all calls) := by
  induction scripts with
  | nil => nofun
  | cons calls later ih =>
      obtain ⟨hcalls, hlater⟩ := List.forall_mem_cons.mp hpeers
      exact List.forall_mem_cons.mpr ⟨accounts_runAll hcalls, ih hlater⟩

variable (hkept : ledger.Kept)

include hkept

/-- Whatever others do meanwhile, the entries for an explicit call account for what it does. -/
theorem accounts_run (call : SharedCall α) :
    ledger.Accounts call.explicit.run (ledger.call call.explicit) := by
  induction call using induct with
  | hstep call ih =>
      have hpeers := accounts_interludes ih
      intro ring
      cases call with
      | insertWithin item timeout clock scripts line =>
          obtain ⟨_, trace, hresult, hcall⟩ := SharedCall.waitingCall_insertWithin item timeout
            clock (explicitInterludes scripts) line ring
          rw [explicit, hresult]
          exact holds_waitingCall (hkept.offer item ring.overwrite) hpeers
            (hkept.insertWithin item timeout clock _ line trace) hcall
      | removeWithin timeout clock scripts line =>
          obtain ⟨_, trace, hresult, hcall⟩ := SharedCall.waitingCall_removeWithin timeout clock
            (explicitInterludes scripts) line ring
          rw [explicit, hresult]
          exact holds_waitingCall hkept.take hpeers
            (hkept.removeWithin timeout clock _ line trace) hcall
      | insertManyCount items line => exact hkept.direct (.insertMany items line) rfl ring
      | removeManyCount buffer line => exact hkept.direct (.removeMany buffer line) rfl ring
      | isSound line => exact hkept.direct (.check line) rfl ring
      | _ => exact hkept.direct _ rfl ring

theorem holds_stepAll (calls : List (SharedCall α)) (ring : Ring α) :
    ledger.holds ring ((stepAll (explicitAll calls) ring).1.flatMap Step.events)
      (ledger.parts (explicitAll calls) (stepAll (explicitAll calls) ring).1)
      (stepAll (explicitAll calls) ring).2 := by
  induction calls generalizing ring with
  | nil => exact ledger.rest ring
  | cons call later ih =>
      have hcall := ledger.trans (accounts_run hkept call ring) (hkept.shown _)
      rw [List.append_nil] at hcall
      exact ledger.trans hcall (ih _)

theorem holds_perform (call : Call α) (session : Session α) :
    ledger.holds session.ring (session.perform call.explicit).1.allEvents
      (ledger.reply call.explicit (session.perform call.explicit).1.reply)
      (session.perform call.explicit).2.ring := by
  cases call with
  | shared call => exact accounts_run hkept call session.ring
  | split calls =>
      have hsteps := holds_stepAll hkept calls session.ring
      rw [← List.append_nil (List.flatMap _ _)] at hsteps
      exact hsteps
  | _ => exact hkept.control _ session rfl

/-- The entries for a session account for all that happens in it. -/
theorem holds_performAll (calls : List (Call α)) (session : Session α) :
    let run := session.performAll (calls.map Call.explicit)
    ledger.holds session.ring (run.1.flatMap Step.allEvents)
      (ledger.steps (calls.map Call.explicit) run.1) run.2.ring := by
  induction calls generalizing session with
  | nil => exact ledger.rest session.ring
  | cons call later ih =>
      have hcall := ledger.trans (holds_perform hkept call session) (hkept.shown _)
      rw [List.append_nil, ← session.after_perform] at hcall
      exact ledger.trans hcall (ih _)

end

end Ledger

end SpscRing
