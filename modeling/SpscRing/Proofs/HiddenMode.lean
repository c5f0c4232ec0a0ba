import Mathlib.Data.List.Forall2
import SpscRing.Proofs.Calls
import SpscRing.Proofs.Mode
/-!
# Where the mode cannot be seen

Until an insert meets a full ring, the mode of a ring can be asked for, and shows in nothing
else. Two rings that differ in their modes alone then answer all other calls in the same way,
those that wait and those made meanwhile as well, and go on differing in their modes alone.
-/

namespace SpscRing

/-! ## What is told of the mode -/

def mapReports {α β : Type} :
    List (List (Answer α) → List (Answer α)) → List (Beat β (List (Answer α))) →
      List (Beat β (List (Answer α)))
  | _, [] => []
  | readers, .sleep length report :: beats =>
    .sleep length (readers.headD id report) :: mapReports readers.tail beats
  | readers, beat :: beats => beat :: mapReports readers beats

namespace SharedCall

mutual

/-- An answer with nothing in it of the mode, which only two questions ask for: neither what
the caller is told, nor what others are told meanwhile. -/
def hideMode {α : Type} : SharedCall α → (Answer α → Answer α)
  | query .overwriteEnabled | query .text => fun _ => .done
  | insertWithin _ _ _ interludes _ => fun answer =>
    match answer with
    | .waitedInsert verdict trace =>
      .waitedInsert verdict (mapReports (hideModeEach interludes) trace)
    | other => other
  | removeWithin _ _ interludes _ => fun answer =>
    match answer with
    | .waitedRemove verdict trace =>
      .waitedRemove verdict (mapReports (hideModeEach interludes) trace)
    | other => other
  | _ => id

def hideModeAll {α : Type} : List (SharedCall α) → (List (Answer α) → List (Answer α))
  | [] => id
  | call :: later => fun
    | [] => []
    | answer :: answers => hideMode call answer :: hideModeAll later answers

def hideModeEach {α : Type} :
    List (List (SharedCall α)) → List (List (Answer α) → List (Answer α))
  | [] => []
  | calls :: later => hideModeAll calls :: hideModeEach later

end

end SharedCall

/-- Two outcomes with the same events and the same ring but for its mode, whose results show no
difference where the mode is hidden. -/
structure Outcome.AlikeIn {α β : Type} (mode : Bool) (hide : β → β) (outcome other : Outcome α β) :
    Prop where
  result : hide other.result = hide outcome.result
  ring : other.ring = outcome.ring.inMode mode
  events : other.events = outcome.events

/-- An action in which the mode has no part until an insert meets a full ring. -/
def Modeless {α β : Type} (hide : β → β) (action : Ring α → Outcome α β) : Prop :=
  ∀ (mode : Bool) (ring : Ring α), NeverFull (action ring).events →
    (action ring).AlikeIn mode hide (action (ring.inMode mode))

namespace Outcome

variable {α β γ : Type} {mode : Bool}

theorem neverFull_of_tracked {outcome : Outcome α (Except Fault β)} {operation : Operation}
    {line : UInt32} (hnever : NeverFull (outcome.tracked operation line).events) :
    NeverFull outcome.events := by
  obtain ⟨_ | _, ring, events⟩ := outcome
  · exact (neverFull_append.mp hnever).1
  · exact hnever

end Outcome

/-! ## Bulk attempts -/

namespace Ring

variable {α : Type} {mode : Bool} {ring : Ring α}

theorem inMode_offerEach (overwrite other : Bool) (items : List α)
    (hnever : NeverFull (offerEach overwrite items ring).events) :
    offerEach other items (ring.inMode mode) = (offerEach overwrite items ring).inMode mode := by
  induction items generalizing ring with
  | nil => rfl
  | cons item later ih =>
      have hoffer := ring.inMode_offer item mode overwrite other
      rw [offerEach] at hnever
      rw [offerEach, offerEach]
      generalize ring.offer item overwrite = outcome at hoffer hnever ⊢
      obtain ⟨fault | _, next, events⟩ := outcome
      · rw [hoffer hnever]
        rfl
      · obtain ⟨hfirst, hlater⟩ := neverFull_append.mp hnever
        rw [hoffer hfirst]
        simp only [Outcome.inMode, ih hlater]
        rfl

theorem inMode_takeEach (limit : Nat) :
    takeEach limit (ring.inMode mode) = (takeEach limit ring).inMode mode := by
  induction limit generalizing ring with
  | zero => rfl
  | succ limit ih =>
      rw [takeEach, takeEach, inMode_take]
      generalize ring.take = outcome
      obtain ⟨fault | item, next, events⟩ := outcome
      · rfl
      · simp only [Outcome.inMode, ih]
        rfl

theorem inMode_offerAll (items : List α) (hnever : NeverFull (ring.offerAll items).events) :
    (ring.inMode mode).offerAll items = (ring.offerAll items).inMode mode := by
  have hstorage : (ring.inMode mode).storage = ring.storage := rfl
  unfold offerAll at hnever ⊢
  rw [hstorage]
  generalize ring.storage.slots? = slots at hnever ⊢
  obtain fault | slots := slots
  · rfl
  · dsimp only at hnever ⊢
    split
    · rfl
    · next hitems =>
      rw [if_neg hitems] at hnever
      rw [inMode_offerEach ring.overwrite _ items hnever]
      rfl

theorem inMode_takeAll (limit : Nat) :
    (ring.inMode mode).takeAll limit = (ring.takeAll limit).inMode mode := by
  have hstorage : (ring.inMode mode).storage = ring.storage := rfl
  unfold takeAll
  rw [hstorage]
  generalize ring.storage.slots? = slots
  obtain fault | slots := slots
  · rfl
  · dsimp only
    split
    · rfl
    · rw [inMode_takeEach]
      rfl

/-! ## Calls without waits -/

theorem inMode_insert (item : α) (line : UInt32)
    (hnever : NeverFull (ring.insert item line).events) :
    (ring.inMode mode).insert item line = (ring.insert item line).inMode mode := by
  have hoffer :=
    ring.inMode_offer item mode ring.overwrite mode (Outcome.neverFull_of_tracked hnever)
  show ((ring.inMode mode).offer item mode).tracked .insert line = _
  rw [hoffer, Outcome.inMode_tracked]
  rfl

theorem inMode_remove (line : UInt32) :
    (ring.inMode mode).remove line = (ring.remove line).inMode mode := by
  rw [Ring.remove, inMode_take, Outcome.inMode_tracked]
  rfl

theorem inMode_peek (offset : UInt64) (line : UInt32) :
    (ring.inMode mode).peek offset line = (ring.peek offset line).inMode mode :=
  (Outcome.query ring (ring.itemAt offset)).inMode_tracked .peek line

theorem inMode_check (line : UInt32) :
    (ring.inMode mode).check line = (ring.check line).inMode mode := by
  rw [Ring.check, inMode_integrity, Outcome.inMode_tracked]
  rfl

theorem inMode_insertMany (items : List α) (line : UInt32)
    (hnever : NeverFull (ring.insertMany items line).events) :
    (ring.inMode mode).insertMany items line = (ring.insertMany items line).inMode mode := by
  rw [insertMany, inMode_offerAll items (Outcome.neverFull_of_tracked hnever),
    Outcome.inMode_tracked]
  rfl

theorem inMode_removeMany (buffer : List α) (line : UInt32) :
    (ring.inMode mode).removeMany buffer line = (ring.removeMany buffer line).inMode mode := by
  rw [removeMany_eq_takeAll, removeMany_eq_takeAll, inMode_takeAll, Outcome.inMode_tracked]
  rfl

end Ring

/-! ## Waits -/

def Waiting.inMode {α κ : Type} (mode : Bool) (world : Waiting α κ) : Waiting α κ :=
  { world with ring := world.ring.inMode mode }

/-- Two waits that leave the same world but for the mode of its ring, and in whose traces the
readers of their reports see no difference. -/
structure Wait.AlikeIn {α β κ : Type} (mode : Bool)
    (readers : List (List (Answer α) → List (Answer α)))
    (wait other : Wait β (List (Answer α)) (Waiting α κ)) : Prop where
  verdict : other.verdict = wait.verdict
  trace : mapReports readers other.trace = mapReports readers wait.trace
  world : other.world = wait.world.inMode mode

theorem mapReports_round {α β : Type} {readers : List (List (Answer α) → List (Answer α))}
    (reading length : Duration) {report also : List (Answer α)}
    (hreport : readers.headD id also = readers.headD id report) (outcome : Except Fault β)
    {later others : List (Beat β (List (Answer α)))}
    (hlater : mapReports readers.tail others = mapReports readers.tail later) :
    mapReports readers (roundBeats reading length also outcome ++ others) =
      mapReports readers (roundBeats reading length report outcome ++ later) := by
  simp only [roundBeats, List.cons_append, List.nil_append, mapReports, hreport, hlater]

section

open Surroundings

variable {α β κ ι : Type} {mode : Bool} {readers : List (List (Answer α) → List (Answer α))}
  {attempt other : Ring α → Outcome α (Except Fault β)} {interludes : List (Interlude α)}
  {timepiece : Clock κ ι Unit}

theorem modeless_turn (hpeers : List.Forall₂ Modeless readers interludes) :
    Modeless (readers.headD id) (turn interludes) := by
  cases hpeers with
  | nil => exact fun _ _ _ => ⟨rfl, rfl, rfl⟩
  | cons hpeer _ => exact hpeer

/-- What has happened before the rounds of a wait is still told of after them. -/
theorem neverFull_of_retry {pacing : Pacing} {timeout : Duration} {waitingOn : Fault} {start : ι}
    {rounds : Nat} {delay : Duration} {world : Waiting α (Surroundings α κ)}
    (hnever : NeverFull (Wait.retry (clockwork timepiece) pacing timeout waitingOn
      (Waiting.perform attempt) start rounds delay world).world.events) :
    NeverFull world.events := by
  obtain ⟨events, hevents, _⟩ :=
    retry_rounds timepiece pacing timeout waitingOn attempt start rounds delay world
  rw [hevents] at hnever
  exact (neverFull_append.mp hnever).1

theorem neverFull_of_round {pacing : Pacing} {timeout : Duration} {waitingOn : Fault} {start : ι}
    {rounds : Nat} {delay : Duration} {next : Waiting α (Surroundings α κ)}
    {tried : Except Fault β} {beats : List (Beat β (List (Answer α)))}
    (hnever : NeverFull (if failsWith waitingOn tried then
      (Wait.retry (clockwork timepiece) pacing timeout waitingOn (Waiting.perform attempt) start
        rounds delay next).after beats else ⟨.settled tried, beats, next⟩).world.events) :
    NeverFull next.events := by
  split at hnever
  · exact neverFull_of_retry hnever
  · exact hnever

theorem Waited.events_eq {waitingOn : Fault} {pacing : Pacing} {timeout : Duration}
    {ring final : Ring α} {verdict : Verdict β} {trace : List (Beat β (List (Answer α)))}
    {events : List (Event α)}
    (hwaited : Waited attempt waitingOn pacing timeout interludes ring verdict trace events final) :
    ∃ later, events = (attempt ring).events ++ later := by
  cases hwaited with
  | atOnce htried | badPacing htried =>
      rw [htried]
      exact ⟨[], (List.append_nil _).symm⟩
  | later htried =>
      rw [htried]
      exact ⟨_, rfl⟩

theorem neverFull_of_concludeWait {operation : Operation} {waitingOn : Fault} {line : UInt32}
    {timeout : Duration} {wait : Wait β (List (Answer α)) (Waiting α κ)}
    (hnever : NeverFull (Ring.concludeWait operation waitingOn line timeout wait).world.events) :
    NeverFull wait.world.events := by
  obtain ⟨_, _, closing, hevents, _⟩ := concludeWait_concluded operation waitingOn line timeout wait
  rw [hevents] at hnever
  exact (neverFull_append.mp hnever).1

theorem concludeWait_alikeIn {wait also : Wait β (List (Answer α)) (Waiting α κ)}
    (halike : wait.AlikeIn mode readers also) (operation : Operation) (waitingOn : Fault)
    (line : UInt32) (timeout : Duration) :
    (Ring.concludeWait operation waitingOn line timeout wait).AlikeIn mode readers
      (Ring.concludeWait operation waitingOn line timeout also) := by
  obtain ⟨verdict, trace, world⟩ := wait
  obtain ⟨same, beats, after⟩ := also
  obtain ⟨hverdict, htrace, hworld⟩ := halike
  have hverdict : same = verdict := hverdict
  have hworld : after = world.inMode mode := hworld
  subst hverdict hworld
  obtain (fault | result) | _ | _ := same
  all_goals exact ⟨rfl, htrace, rfl⟩

variable
  (hattempt : ∀ ring, NeverFull (attempt ring).events →
    other (ring.inMode mode) = (attempt ring).inMode mode)

include hattempt

theorem retry_inMode (pacing : Pacing) (timeout : Duration) (waitingOn : Fault) (start : ι)
    (rounds : Nat) (delay : Duration) (ring : Ring α) (history : List (Event α)) (clock : κ)
    (hpeers : List.Forall₂ Modeless readers interludes)
    (hnever : NeverFull (Wait.retry (clockwork timepiece) pacing timeout waitingOn
      (Waiting.perform attempt) start rounds delay
        ⟨ring, history, ⟨clock, interludes⟩⟩).world.events) :
    (Wait.retry (clockwork timepiece) pacing timeout waitingOn (Waiting.perform attempt) start
        rounds delay ⟨ring, history, ⟨clock, interludes⟩⟩).AlikeIn mode readers
      (Wait.retry (clockwork timepiece) pacing timeout waitingOn (Waiting.perform other) start
        rounds delay ⟨ring.inMode mode, history, ⟨clock, interludes⟩⟩) := by
  induction rounds generalizing delay ring history clock interludes readers with
  | zero => exact ⟨rfl, rfl, rfl⟩
  | succ rounds ih =>
      obtain ⟨reading, _, later, hround⟩ :=
        retry_succ timepiece pacing timeout waitingOn start rounds delay clock interludes
      have hturn := modeless_turn hpeers mode ring
      have hlater := List.forall₂_drop 1 hpeers
      rw [List.drop_one, List.drop_one] at hlater
      dsimp only at hround
      rw [hround] at hnever
      rw [hround, hround]
      by_cases hlate : timeout ≤ reading
      · rw [if_pos hlate, if_pos hlate]
        exact ⟨rfl, rfl, rfl⟩
      rw [if_neg hlate] at hnever
      rw [if_neg hlate, if_neg hlate]
      generalize turn interludes ring = peers at hturn hnever ⊢
      generalize turn interludes (ring.inMode mode) = alike at hturn ⊢
      have hnext := neverFull_of_round hnever
      rw [events_round] at hnext
      obtain ⟨hothers, htried⟩ := neverFull_append.mp (neverFull_append.mp hnext).2
      obtain ⟨hreport, hring, hevents⟩ := hturn hothers
      have htold : (other (peers.ring.inMode mode)).result = (attempt peers.ring).result := by
        rw [hattempt peers.ring htried]
        rfl
      simp only [hring, hevents, htold]
      by_cases hfails : failsWith waitingOn (attempt peers.ring).result = true
      · rw [if_pos hfails] at hnever
        rw [if_pos hfails, if_pos hfails, hattempt peers.ring htried]
        obtain ⟨hverdict, hbeats, hworld⟩ := ih (pacing.nextDelay delay) _ _ _ hlater hnever
        exact ⟨hverdict, mapReports_round reading _ hreport _ hbeats, hworld⟩
      · rw [if_neg hfails, if_neg hfails, hattempt peers.ring htried]
        exact ⟨rfl, mapReports_round reading _ hreport _ rfl, rfl⟩

variable (attempt other) in
theorem run_inMode (pacing : Pacing) (timeout : Duration) (waitingOn : Fault) (rounds : Nat)
    (ring : Ring α) (clock : κ) (hpeers : List.Forall₂ Modeless readers interludes)
    (hnever : NeverFull (Wait.run (clockwork timepiece) pacing timeout waitingOn
      (Waiting.perform attempt) rounds ⟨ring, [], ⟨clock, interludes⟩⟩).world.events) :
    (Wait.run (clockwork timepiece) pacing timeout waitingOn (Waiting.perform attempt) rounds
        ⟨ring, [], ⟨clock, interludes⟩⟩).AlikeIn mode readers
      (Wait.run (clockwork timepiece) pacing timeout waitingOn (Waiting.perform other) rounds
        ⟨ring.inMode mode, [], ⟨clock, interludes⟩⟩) := by
  have htried : NeverFull (attempt ring).events := by
    obtain ⟨later, hevents⟩ := Waited.events_eq (run_waited timepiece pacing timeout waitingOn
      attempt rounds ring ⟨clock, interludes⟩)
    rw [hevents] at hnever
    exact (neverFull_append.mp hnever).1
  have htold : (other (ring.inMode mode)).result = (attempt ring).result := by
    rw [hattempt ring htried]
    rfl
  have hnow : ∀ ring : Ring α, (clockwork timepiece).now ⟨ring, [], ⟨clock, interludes⟩⟩ =
      ((timepiece.now clock).1, ⟨ring, [], ⟨(timepiece.now clock).2, interludes⟩⟩) := fun _ => rfl
  rw [Wait.run] at hnever
  rw [Wait.run, Wait.run]
  simp only [hnow, Waiting.perform, htold] at hnever ⊢
  by_cases hretries : (failsWith waitingOn (attempt ring).result && !timeout.isZero) = true
  · rw [if_pos hretries] at hnever
    rw [if_pos hretries, if_pos hretries, hattempt ring htried]
    cases hvalid : pacing.validate with
    | error fault => exact ⟨rfl, rfl, rfl⟩
    | ok _ =>
        rw [hvalid] at hnever
        obtain ⟨hverdict, htrace, hworld⟩ := retry_inMode hattempt pacing timeout waitingOn
          (timepiece.now clock).1 rounds pacing.interval (attempt ring).ring _
          (timepiece.now clock).2 hpeers hnever
        have hopening := congrArg (List.cons (Beat.attempt (attempt ring).result)) htrace
        exact ⟨hverdict, congrArg (List.cons Beat.now) hopening, hworld⟩
  · rw [if_neg hretries, if_neg hretries, hattempt ring htried]
    exact ⟨rfl, rfl, rfl⟩

end

/-! ## Calls -/

namespace SharedCall

variable {α : Type}

theorem modeless_map {β : Type} {action : Ring α → Outcome α β} {hide : Answer α → Answer α}
    {answer : β → Answer α}
    (heq : ∀ {mode : Bool} {ring : Ring α}, NeverFull (action ring).events →
      action (ring.inMode mode) = (action ring).inMode mode) :
    Modeless hide fun ring => (action ring).map answer := by
  intro mode ring hnever
  dsimp only
  rw [heq hnever]
  exact ⟨rfl, rfl, rfl⟩

section

variable {timeout : Duration} {clock : VirtualClock} {scripts : List (List (SharedCall α))}
  {line : UInt32} (hpeers : List.Forall₂ Modeless (hideModeEach scripts) (runInterludes scripts))

include hpeers

theorem modeless_insertWithin (item : α) :
    Modeless (insertWithin item timeout clock scripts line).hideMode
      (insertWithin item timeout clock scripts line).run := by
  intro mode ring hnever
  have halike := run_inMode (·.offer item ring.overwrite) (·.offer item mode)
    (fun next => next.inMode_offer item mode ring.overwrite mode) ring.pacing timeout .full _ ring
    clock hpeers (neverFull_of_concludeWait hnever)
  obtain ⟨hverdict, htrace, hworld⟩ :=
    concludeWait_alikeIn halike .insertWithin .full line timeout
  have hanswer := congr (congrArg Answer.waitedInsert hverdict) htrace
  have hring := congrArg Waiting.ring hworld
  have hevents := congrArg Waiting.events hworld
  exact ⟨hanswer, hring, hevents⟩

theorem modeless_removeWithin :
    Modeless (removeWithin timeout clock scripts line).hideMode
      (removeWithin timeout clock scripts line).run := by
  intro mode ring hnever
  have halike := run_inMode Ring.take Ring.take (fun next _ => next.inMode_take mode) ring.pacing
    timeout .empty _ ring clock hpeers (neverFull_of_concludeWait hnever)
  obtain ⟨hverdict, htrace, hworld⟩ :=
    concludeWait_alikeIn halike .removeWithin .empty line timeout
  have hanswer := congr (congrArg Answer.waitedRemove hverdict) htrace
  have hring := congrArg Waiting.ring hworld
  have hevents := congrArg Waiting.events hworld
  exact ⟨hanswer, hring, hevents⟩

end

theorem modeless_runAll {calls : List (SharedCall α)}
    (hcalls : ∀ call ∈ calls, Modeless call.hideMode call.run) :
    Modeless (hideModeAll calls) (runAll calls) := by
  induction calls with
  | nil => exact fun _ _ _ => ⟨rfl, rfl, rfl⟩
  | cons call later ih =>
      obtain ⟨hcall, hlater⟩ := List.forall_mem_cons.mp hcalls
      intro mode ring hnever
      obtain ⟨hfirst, hrest⟩ := neverFull_append.mp hnever
      obtain ⟨hanswer, hring, hevents⟩ := hcall mode ring hfirst
      obtain ⟨hanswers, hfinal, hothers⟩ := ih hlater mode (call.run ring).ring hrest
      rw [← hring] at hanswers hfinal hothers
      have hboth := congr (congrArg List.append hevents) hothers
      exact ⟨List.cons_eq_cons.mpr ⟨hanswer, hanswers⟩, hfinal, hboth⟩

theorem modeless_runInterludes {scripts : List (List (SharedCall α))}
    (hscripts : ∀ calls ∈ scripts, ∀ peer ∈ calls, Modeless peer.hideMode peer.run) :
    List.Forall₂ Modeless (hideModeEach scripts) (runInterludes scripts) := by
  induction scripts with
  | nil => exact .nil
  | cons calls later ih =>
      obtain ⟨hcalls, hlater⟩ := List.forall_mem_cons.mp hscripts
      exact .cons (modeless_runAll hcalls) (ih hlater)

/-- The mode has no part in any call until an insert meets a full ring, whatever others do
meanwhile. -/
theorem modeless_run (call : SharedCall α) : Modeless call.hideMode call.run := by
  induction call using induct with
  | hstep call ih =>
      have hpeers := modeless_runInterludes ih
      cases call with
      | insertWithin item => exact modeless_insertWithin hpeers item
      | removeWithin => exact modeless_removeWithin hpeers
      | insert item line => exact modeless_map fun hnever => Ring.inMode_insert item line hnever
      | remove line => exact modeless_map fun _ => Ring.inMode_remove line
      | peek offset line => exact modeless_map fun _ => Ring.inMode_peek offset line
      | insertMany items line =>
          exact modeless_map fun hnever => Ring.inMode_insertMany items line hnever
      | insertManyCount items line =>
          exact modeless_map fun hnever =>
            congrArg (Outcome.map Ring.countOf) (Ring.inMode_insertMany items line hnever)
      | removeMany buffer line => exact modeless_map fun _ => Ring.inMode_removeMany buffer line
      | removeManyCount buffer line =>
          exact modeless_map fun _ => congrArg
            (Outcome.map fun moved : Except Fault Nat × List α => (Ring.countOf moved.1, moved.2))
            (Ring.inMode_removeMany buffer line)
      | check line => exact modeless_map fun _ => Ring.inMode_check line
      | isSound line =>
          exact modeless_map fun _ => congrArg (Outcome.map Except.isOk) (Ring.inMode_check line)
      | query question =>
          cases question with
          | overwriteEnabled | text => exact fun _ _ _ => ⟨rfl, rfl, rfl⟩
          | _ => exact fun _ _ _ => ⟨rfl, rfl, rfl⟩
      | forceIndices => exact fun _ _ _ => ⟨rfl, rfl, rfl⟩

end SharedCall

end SpscRing
