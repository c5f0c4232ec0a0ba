import SpscRing.Proofs.Calls
/-!
# Items that calls answer for

Each call tells by its answer which items it moved: those it accepted, and those it
handed out. Here the answers of a run are read in that way, down into the traces of
waiting calls, and they are found to tell just what happened to the ring, in order.
-/

namespace SpscRing

inductive Transfer (α : Type) where
  | accepted (item : α)
  | delivered (item : α)
  deriving DecidableEq, Repr

namespace Transfer

variable {α β : Type}

def accepted? : Transfer α → Option α
  | accepted item => some item
  | delivered _ => none

def delivered? : Transfer α → Option α
  | accepted _ => none
  | delivered item => some item

def ofResult (moved : β → Transfer α) : Except Fault β → List (Transfer α)
  | .ok result => [moved result]
  | .error _ => []

/-- What the attempts of a wait moved, by its verdict: only the last can have succeeded. -/
def ofVerdict (moved : β → Transfer α) : Verdict β → List (Transfer α)
  | .settled outcome => ofResult moved outcome
  | .gaveUp | .unsettled => []

end Transfer

def Event.transfer? {α : Type} : Event α → Option (Transfer α)
  | accepted item _ => some (.accepted item)
  | delivered item => some (.delivered item)
  | _ => none

def transfers {α : Type} (events : List (Event α)) : List (Transfer α) :=
  events.filterMap Event.transfer?

@[simp] theorem transfers_nil {α : Type} : transfers ([] : List (Event α)) = [] := rfl

@[simp] theorem transfers_append {α : Type} (earlier later : List (Event α)) :
    transfers (earlier ++ later) = transfers earlier ++ transfers later :=
  List.filterMap_append

def Beat.report? {β ρ : Type} : Beat β ρ → Option ρ
  | sleep _ report => some report
  | _ => none

def reports {β ρ : Type} (trace : List (Beat β ρ)) : List ρ := trace.filterMap Beat.report?

namespace SharedCall

variable {α : Type}

-- The items that calls moved, by their answers, those that others moved during a wait
-- before that of the waiting call itself.
mutual

def transfers : SharedCall α → (Answer α → List (Transfer α))
  | insert item _ => fun
    | .unit result => Transfer.ofResult (fun _ => .accepted item) result
    | _ => []
  | remove _ => fun
    | .item result => Transfer.ofResult .delivered result
    | _ => []
  | insertMany items _ => fun
    | .count result => (items.take (Ring.countOf result)).map .accepted
    | _ => []
  | insertManyCount items _ => fun
    | .plainCount moved => (items.take moved).map .accepted
    | _ => []
  | removeMany _ _ => fun
    | .buffer result cells => (cells.take (Ring.countOf result)).map .delivered
    | _ => []
  | removeManyCount _ _ => fun
    | .plainBuffer moved cells => (cells.take moved).map .delivered
    | _ => []
  | insertWithin item _ _ interludes _ => fun
    | .waitedInsert verdict trace =>
      transfersMeanwhile interludes (reports trace) ++
        Transfer.ofVerdict (fun _ => .accepted item) verdict
    | _ => []
  | removeWithin _ _ interludes _ => fun
    | .waitedRemove verdict trace =>
      transfersMeanwhile interludes (reports trace) ++
        Transfer.ofVerdict .delivered verdict
    | _ => []
  | _ => fun _ => []

def transfersAll : List (SharedCall α) → (List (Answer α) → List (Transfer α))
  | [] => fun _ => []
  | call :: later => fun
    | [] => []
    | answer :: answers => call.transfers answer ++ transfersAll later answers

def transfersMeanwhile :
    List (List (SharedCall α)) → (List (List (Answer α)) → List (Transfer α))
  | [] => fun _ => []
  | calls :: later => fun
    | [] => []
    | report :: reports => transfersAll calls report ++ transfersMeanwhile later reports

end

theorem transfersMeanwhile_nil (scripts : List (List (SharedCall α))) :
    transfersMeanwhile scripts [] = [] := by
  cases scripts <;> rfl

theorem transfersMeanwhile_cons (scripts : List (List (SharedCall α))) (report : List (Answer α))
    (reports : List (List (Answer α))) :
    transfersMeanwhile scripts (report :: reports) =
      transfersAll (scripts.headD []) report ++ transfersMeanwhile scripts.tail reports := by
  cases scripts <;> rfl

end SharedCall

/-! ## Attempts -/

namespace Ring

variable {α : Type}

theorem transfers_offer (ring : Ring α) (item : α) (overwrite : Bool) :
    transfers (ring.offer item overwrite).events =
      Transfer.ofResult (fun _ => .accepted item) (ring.offer item overwrite).result := by
  have hend := offered ring item overwrite
  generalize ring.offer item overwrite = outcome at hend ⊢
  cases hend with
  | inert | corrupted | full | replaced | accepted => rfl

theorem transfers_take (ring : Ring α) :
    transfers ring.take.events = Transfer.ofResult .delivered ring.take.result := by
  have hend := taken ring
  generalize ring.take = outcome at hend ⊢
  cases hend with
  | inert | corrupted | empty | delivered => rfl

theorem transfers_integrity (ring : Ring α) : transfers ring.integrity.events = [] := by
  have hend := checked ring
  generalize ring.integrity = outcome at hend ⊢
  cases hend with
  | inert | corrupted | sound => rfl

theorem transfers_offerEach (overwrite : Bool) (items : List α) (ring : Ring α) :
    transfers (offerEach overwrite items ring).events =
      (items.take (offerEach overwrite items ring).result.1).map .accepted := by
  induction items generalizing ring with
  | nil => rfl
  | cons item later ih =>
      have hoffer := transfers_offer ring item overwrite
      rw [offerEach]
      generalize ring.offer item overwrite = outcome at hoffer
      rcases outcome with ⟨fault | _, next, events⟩
      · exact hoffer
      · simp only [Outcome.after, Outcome.map, transfers_append, List.take_succ_cons,
          List.map_cons, ih next]
        rw [hoffer]
        rfl

theorem transfers_takeEach (limit : Nat) (ring : Ring α) :
    transfers (takeEach limit ring).events = (takeEach limit ring).result.1.map .delivered := by
  induction limit generalizing ring with
  | zero => rfl
  | succ limit ih =>
      have htake := transfers_take ring
      rw [takeEach]
      generalize ring.take = outcome at htake
      rcases outcome with ⟨fault | item, next, events⟩
      · exact htake
      · simp only [Outcome.after, Outcome.map, transfers_append, List.map_cons, ih next]
        rw [htake]
        rfl

theorem transfers_tracked {β : Type} (outcome : Outcome α (Except Fault β))
    (operation : Operation) (line : UInt32) :
    transfers (outcome.tracked operation line).events = transfers outcome.events := by
  rcases outcome with ⟨_ | _, ring, events⟩
  · simp only [Outcome.tracked, transfers_append]
    exact List.append_nil _
  · rfl

theorem transfers_tracked_ofResult {β : Type} {moved : β → Transfer α}
    {outcome : Outcome α (Except Fault β)}
    (hmoved : transfers outcome.events = Transfer.ofResult moved outcome.result)
    (operation : Operation) (line : UInt32) :
    transfers (outcome.tracked operation line).events =
      Transfer.ofResult moved (outcome.tracked operation line).result := by
  rw [transfers_tracked, hmoved]
  rcases outcome with ⟨_ | _, ring, events⟩ <;> rfl

theorem transfers_offerAll (ring : Ring α) (items : List α) :
    transfers (ring.offerAll items).events =
      (items.take (countOf (ring.offerAll items).result)).map .accepted := by
  have heach := transfers_offerEach ring.overwrite items ring
  unfold offerAll
  split
  · rfl
  · split
    · rfl
    · generalize offerEach ring.overwrite items ring = outcome at heach
      rcases outcome with ⟨⟨_ | count, _ | fault⟩, next, events⟩ <;> exact heach

theorem transfers_insertMany (ring : Ring α) (items : List α) (line : UInt32) :
    transfers (ring.insertMany items line).events =
      (items.take (countOf (ring.insertMany items line).result)).map .accepted := by
  have hall := transfers_offerAll ring items
  rw [insertMany, transfers_tracked]
  generalize ring.offerAll items = outcome at hall
  rcases outcome with ⟨_ | _, next, events⟩ <;> exact hall

theorem transfers_takeAll (ring : Ring α) (limit : Nat) :
    transfers (ring.takeAll limit).events =
      ((ring.takeAll limit).result.toOption.getD []).map .delivered := by
  have heach := transfers_takeEach limit ring
  unfold takeAll
  split
  · rfl
  · split
    · rfl
    · generalize takeEach limit ring = outcome at heach
      rcases outcome with ⟨⟨_ | ⟨item, items⟩, _ | fault⟩, next, events⟩ <;> exact heach

theorem transfers_removeMany (ring : Ring α) (buffer : List α) (line : UInt32) :
    let outcome := ring.removeMany buffer line
    transfers outcome.events =
      (outcome.result.2.take (countOf outcome.result.1)).map .delivered := by
  have hall := transfers_takeAll ring buffer.length
  intro outcome
  simp only [outcome]
  rw [events_removeMany, transfers_tracked, hall, removeMany_eq_takeAll]
  generalize ring.takeAll buffer.length = taken
  rcases taken with ⟨fault | items, next, events⟩
  · rfl
  · simp [Outcome.tracked, Outcome.map, filled, fillFront, countOf, Except.toOption]

end Ring

/-! ## Calls -/

section

variable {α β : Type} {attempt : Ring α → Outcome α (Except Fault β)} {waitingOn : Fault}
  {moved : β → Transfer α} {scripts : List (List (SharedCall α))} {ring final : Ring α}
  {verdict : Verdict β} {trace : List (Beat β (List (Answer α)))} {events : List (Event α)}

open SharedCall

theorem reports_append {ρ : Type} (earlier later : List (Beat β ρ)) :
    reports (earlier ++ later) = reports earlier ++ reports later :=
  List.filterMap_append

theorem reports_roundBeats (reading length : Duration) (report : List (Answer α))
    (outcome : Except Fault β) : reports (roundBeats reading length report outcome) = [report] :=
  rfl

theorem transfers_of_failsWith {outcome : Outcome α (Except Fault β)}
    (hmoved : transfers outcome.events = Transfer.ofResult moved outcome.result)
    (hfails : failsWith waitingOn outcome.result = true) : transfers outcome.events = [] := by
  rcases outcome with ⟨fault | result, next, events⟩
  · exact hmoved
  · cases hfails

theorem transfers_turn
    (hpeers : ∀ calls ∈ scripts, ∀ ring,
      transfers (runAll calls ring).events = transfersAll calls (runAll calls ring).result)
    (ring : Ring α) :
    let turn := Surroundings.turn (runInterludes scripts) ring
    transfers turn.events = transfersAll (scripts.headD []) turn.result := by
  rw [turn_runInterludes]
  cases scripts with
  | nil => rfl
  | cons calls later => exact hpeers calls List.mem_cons_self ring

/-- Round by round, what others move during the sleep, and then what the attempt moves:
nothing, unless it is the last one. -/
theorem Rounds.transfers_eq
    (hattempt : ∀ ring,
      transfers (attempt ring).events = Transfer.ofResult moved (attempt ring).result)
    (hpeers : ∀ calls ∈ scripts, ∀ ring,
      transfers (runAll calls ring).events = transfersAll calls (runAll calls ring).result)
    (hrounds : Rounds attempt waitingOn (runInterludes scripts) ring verdict trace events final) :
    transfers events =
      transfersMeanwhile scripts (reports trace) ++
        Transfer.ofVerdict moved verdict := by
  generalize hinterludes : runInterludes scripts = interludes at hrounds
  induction hrounds generalizing scripts with
  | unsettled | gaveUp =>
      rw [show reports _ = [] from rfl, transfersMeanwhile_nil]
      rfl
  | settled _ _ hturn htried =>
      subst hinterludes hturn htried
      have hothers := transfers_turn hpeers
      rw [transfers_append, hothers, hattempt, reports_roundBeats, transfersMeanwhile_cons,
        transfersMeanwhile_nil, List.append_nil]
      rfl
  | again _ _ hturn htried hfails _ ih =>
      subst hinterludes hturn htried
      have hothers := transfers_turn hpeers
      have hlater := ih (fun calls hcalls => hpeers calls (List.mem_of_mem_tail hcalls))
        (tail_runInterludes scripts).symm
      rw [transfers_append, transfers_append, hothers, transfers_of_failsWith (hattempt _) hfails,
        hlater, reports_append, reports_roundBeats, List.singleton_append,
        transfersMeanwhile_cons, List.append_nil, List.append_assoc]

theorem Waited.transfers_eq {pacing : Pacing} {timeout : Duration}
    (hattempt : ∀ ring,
      transfers (attempt ring).events = Transfer.ofResult moved (attempt ring).result)
    (hpeers : ∀ calls ∈ scripts, ∀ ring,
      transfers (runAll calls ring).events = transfersAll calls (runAll calls ring).result)
    (hwaited : Waited attempt waitingOn pacing timeout (runInterludes scripts) ring verdict trace
      events final) :
    transfers events =
      transfersMeanwhile scripts (reports trace) ++ Transfer.ofVerdict moved verdict := by
  cases hwaited with
  | atOnce htried =>
      subst htried
      rw [hattempt, show reports _ = [] from rfl, transfersMeanwhile_nil]
      rfl
  | badPacing htried hfails =>
      subst htried
      rw [transfers_of_failsWith (hattempt ring) hfails, show reports _ = [] from rfl,
        transfersMeanwhile_nil]
      rfl
  | later htried hfails _ _ hrounds =>
      subst htried
      rw [transfers_append, transfers_of_failsWith (hattempt ring) hfails,
        hrounds.transfers_eq hattempt hpeers, reports_append]
      rfl

theorem Concluded.transfers_eq {operation : Operation} {line : UInt32} {timeout : Duration}
    (hconcluded : Concluded operation waitingOn line timeout verdict ring events final) :
    transfers events = [] := by
  cases hconcluded with
  | moved | failed | gaveUp | unsettled => rfl

theorem WaitingCall.transfers_eq {operation : Operation} {line : UInt32} {timeout : Duration}
    (hattempt : ∀ ring,
      transfers (attempt ring).events = Transfer.ofResult moved (attempt ring).result)
    (hpeers : ∀ calls ∈ scripts, ∀ ring,
      transfers (runAll calls ring).events = transfersAll calls (runAll calls ring).result)
    (hcall : WaitingCall attempt operation waitingOn line timeout (runInterludes scripts) ring
      verdict trace events final) :
    transfers events =
      transfersMeanwhile scripts (reports trace) ++ Transfer.ofVerdict moved verdict := by
  obtain ⟨hwaited, hconcluded⟩ := hcall
  rw [transfers_append, hconcluded.transfers_eq, List.append_nil,
    hwaited.transfers_eq hattempt hpeers]

end

namespace SharedCall

variable {α : Type}

theorem transfers_runAll {calls : List (SharedCall α)}
    (hcalls : ∀ call ∈ calls, ∀ ring,
      SpscRing.transfers (call.run ring).events = call.transfers (call.run ring).result)
    (ring : Ring α) :
    SpscRing.transfers (runAll calls ring).events =
      transfersAll calls (runAll calls ring).result := by
  induction calls generalizing ring with
  | nil => rfl
  | cons call later ih =>
      obtain ⟨hcall, hlater⟩ := List.forall_mem_cons.mp hcalls
      have hafter := ih hlater (call.run ring).ring
      simp only [runAll, Outcome.andThen, Outcome.after, Outcome.map, transfers_append, hcall]
      rw [hafter, transfersAll]

/-- The answer of a call tells which items moved while it ran, and in which order. -/
theorem transfers_run (call : SharedCall α) :
    ∀ ring, SpscRing.transfers (call.run ring).events =
      call.transfers (call.run ring).result := by
  induction call using induct with
  | hstep call ih =>
      have hpeers : ∀ calls ∈ call.interludes, ∀ ring,
          SpscRing.transfers (runAll calls ring).events =
            transfersAll calls (runAll calls ring).result := fun calls hcalls =>
        transfers_runAll (ih calls hcalls)
      intro ring
      cases call with
      | insert item line =>
          exact Ring.transfers_tracked_ofResult
            (ring.transfers_offer item ring.overwrite) .insert line
      | remove line => exact Ring.transfers_tracked_ofResult ring.transfers_take .remove line
      | peek offset line => exact Ring.transfers_tracked _ .peek line
      | insertMany items line => exact Ring.transfers_insertMany ring items line
      | insertManyCount items line => exact Ring.transfers_insertMany ring items line
      | removeMany buffer line => exact Ring.transfers_removeMany ring buffer line
      | removeManyCount buffer line => exact Ring.transfers_removeMany ring buffer line
      | insertWithin item timeout clock scripts line =>
          obtain ⟨_, _, hresult, hcall⟩ :=
            waitingCall_insertWithin item timeout clock scripts line ring
          rw [hresult]
          exact hcall.transfers_eq (fun next => next.transfers_offer item ring.overwrite) hpeers
      | removeWithin timeout clock scripts line =>
          obtain ⟨_, _, hresult, hcall⟩ := waitingCall_removeWithin timeout clock scripts line ring
          rw [hresult]
          exact hcall.transfers_eq Ring.transfers_take hpeers
      | check line =>
          exact (Ring.transfers_tracked _ .check line).trans ring.transfers_integrity
      | isSound line =>
          exact (Ring.transfers_tracked _ .check line).trans ring.transfers_integrity
      | query question => rfl
      | forceIndices producer consumer => rfl

end SharedCall

/-! ## Runs of calls -/

namespace Call

variable {α : Type}

def transfers : Call α → Reply α → List (Transfer α)
  | .shared call, .answer answer => call.transfers answer
  | .split calls, .parts steps => SharedCall.transfersAll calls (steps.map Step.reply)
  | _, _ => []

def transfersAll : List (Call α) → List (Reply α) → List (Transfer α)
  | call :: later, reply :: replies => call.transfers reply ++ transfersAll later replies
  | _, _ => []

end Call

namespace Session

variable {α : Type}

theorem transfers_setUp (ring : Ring α) (storage : Storage α) (line : UInt32) :
    transfers (ring.setUp storage line).events = [] := by
  cases storage with
  | absent | noCells | lent => rfl

theorem transfers_setPacing (ring : Ring α) (pacing : Pacing) (line : UInt32) :
    transfers (ring.setPacing pacing line).events = [] := by
  have hend := ring.paced pacing line
  generalize ring.setPacing pacing line = outcome at hend ⊢
  cases hend with
  | installed | refused => rfl

theorem transfers_perform (session : Session α) (call : Call α) :
    let step := (session.perform call).1
    transfers step.allEvents = call.transfers step.reply := by
  cases call with
  | shared call => exact call.transfers_run session.ring
  | setUp store line => exact transfers_setUp session.ring _ line
  | setPacing pacing line => exact transfers_setPacing session.ring pacing line
  | setOverwrite | resetCounters | clearFailure => rfl
  | split calls =>
      obtain ⟨hreplies, hevents, _⟩ := SharedCall.stepAll_eq calls session.ring
      have hcalls : ∀ call ∈ calls, ∀ ring, SpscRing.transfers (call.run ring).events =
          call.transfers (call.run ring).result := fun call _ => call.transfers_run
      have hrun := SharedCall.transfers_runAll hcalls session.ring
      rw [← hreplies, ← hevents, ← List.append_nil (List.flatMap _ _)] at hrun
      exact hrun

/-- The replies of a run tell which items moved, and in which order. -/
theorem transfers_performAll (session : Session α) (calls : List (Call α)) :
    let steps := (session.performAll calls).1
    transfers (steps.flatMap Step.allEvents) = Call.transfersAll calls (steps.map Step.reply) := by
  induction calls generalizing session with
  | nil => rfl
  | cons call later ih =>
      have hcall := session.transfers_perform call
      have hlater := ih (session.perform call).2
      simp only [performAll, List.flatMap_cons, transfers_append, hcall, hlater]
      rfl

end Session

end SpscRing
