import SpscRing.Proofs.Exactness
import SpscRing.Proofs.Failures
/-!
# A bulk call is a loop of single calls

Inserting many items is inserting one after another until an insert fails, and removing many is
removing one after another until a remove fails: memory, indices, counters and log come out the
same. Two things are a bulk call's own. It succeeds if anything has moved at all, and it records
a failure only if it fails itself, once and under its own name, where the loop has recorded the
single call that stopped it.
-/

namespace SpscRing

namespace Ring

variable {α β : Type}

/-- Do one thing after another until one fails: the results before that, and what stopped it. -/
def oneByOne : List (Ring α → Outcome α (Except Fault β)) → Ring α →
    Outcome α (List β × Option Fault)
  | [], ring => ⟨([], none), ring, []⟩
  | action :: later, ring =>
    match action ring with
    | ⟨.error fault, ring, events⟩ => ⟨([], some fault), ring, events⟩
    | ⟨.ok result, ring, events⟩ =>
      ((oneByOne later ring).map fun moved => (result :: moved.1, moved.2)).after events

def countMoved : List β × Option Fault → Except Fault Nat
  | ([], some fault) => .error fault
  | (results, _) => .ok results.length

end Ring

namespace Event

variable {α : Type}

def isRecord : Event α → Bool
  | failed _ _ _ => true
  | _ => false

theorem records_append_failed {events : List (Event α)} (hevents : events.filter isRecord = [])
    (operation : Operation) (fault : Fault) (line : UInt32) :
    (events ++ [failed operation fault line]).filter isRecord =
      [failed operation fault line] := by
  rw [List.filter_append, hevents, List.nil_append]
  rfl

theorem others_append_failed (events : List (Event α)) (operation : Operation) (fault : Fault)
    (line : UInt32) :
    (events ++ [failed operation fault line]).filter (!·.isRecord) =
      events.filter (!·.isRecord) := by
  simp [isRecord]

end Event

namespace Outcome

variable {α β : Type}

structure Unrecorded (ring : Ring α) (outcome : Outcome α β) : Prop where
  latch : outcome.ring.latch = ring.latch
  events : outcome.events.filter Event.isRecord = []

def stopTracked (operation : Operation) (line : UInt32)
    (outcome : Outcome α (List β × Option Fault)) : Outcome α (List β × Option Fault) :=
  match outcome.result.2 with
  | none => outcome
  | some fault =>
    { outcome with
      ring := { outcome.ring with latch := .ofFailure operation fault line }
      events := outcome.events ++ [.failed operation fault line] }

theorem others_tracked (outcome : Outcome α (Except Fault β)) (operation : Operation)
    (line : UInt32) :
    (outcome.tracked operation line).events.filter (!·.isRecord) =
      outcome.events.filter (!·.isRecord) := by
  rcases outcome with ⟨fault | _, ring, events⟩
  · exact Event.others_append_failed events operation fault line
  · rfl

section

variable (outcome : Outcome α (List β × Option Fault)) (operation : Operation) (line : UInt32)

theorem result_stopTracked : (outcome.stopTracked operation line).result = outcome.result := by
  unfold stopTracked
  split <;> rfl

theorem others_stopTracked :
    (outcome.stopTracked operation line).events.filter (!·.isRecord) =
      outcome.events.filter (!·.isRecord) := by
  unfold stopTracked
  split
  · rfl
  · exact Event.others_append_failed outcome.events operation _ line

theorem logLines_stopTracked :
    logLines (outcome.stopTracked operation line).events = logLines outcome.events := by
  unfold stopTracked
  split
  · rfl
  · exact (logLines_append _ _).trans (List.append_nil _)

end

end Outcome

/-- A bulk call on a ring beside the single calls that it stands for, made on the same ring. -/
structure Ring.Loops {α β : Type} (operation : Operation) (line : UInt32) (ring : Ring α)
    (singles : Outcome α (List β × Option Fault)) (bulk : Outcome α (Except Fault Nat)) :
    Prop where
  /-- Memory, indices, counters and the rest come out the same, up to the record of failures. -/
  same_ring : { bulk.ring with latch := singles.ring.latch } = singles.ring
  same_events : bulk.events.filter (!·.isRecord) = singles.events.filter (!·.isRecord)
  same_log : logLines bulk.events = logLines singles.events
  /-- Something moved: that is a success, whatever stopped the rest, and nothing is recorded. -/
  moved : singles.result.1 ≠ [] →
    bulk.result = .ok singles.result.1.length ∧ bulk.ring.latch = ring.latch ∧
      bulk.events.filter Event.isRecord = []
  /-- Nothing moved: what stopped the first single call is recorded once, as the bulk call's. -/
  stopped : singles.result.1 = [] →
    ∃ fault, singles.result.2 = some fault ∧ bulk.result = .error fault ∧
      bulk.ring.latch = .ofFailure operation fault line ∧
      bulk.events.filter Event.isRecord = [.failed operation fault line]

namespace Ring

variable {α β : Type}

/-! ## Attempts record nothing -/

theorem unrecorded_offer (ring : Ring α) (item : α) (overwrite : Bool) :
    (ring.offer item overwrite).Unrecorded ring := by
  refine ⟨ring.latch_offer item overwrite, ?_⟩
  have hend := ring.offered item overwrite
  generalize ring.offer item overwrite = outcome at hend ⊢
  cases hend with
  | inert | corrupted | full | replaced | accepted => rfl

theorem unrecorded_take (ring : Ring α) : ring.take.Unrecorded ring := by
  refine ⟨ring.latch_take, ?_⟩
  have hend := ring.taken
  generalize ring.take = outcome at hend ⊢
  cases hend with
  | inert | corrupted | empty | delivered => rfl

theorem unrecorded_oneByOne {attempts : List (Ring α → Outcome α (Except Fault β))}
    (hattempts : ∀ attempt ∈ attempts, ∀ ring, (attempt ring).Unrecorded ring) (ring : Ring α) :
    (oneByOne attempts ring).Unrecorded ring := by
  induction attempts generalizing ring with
  | nil => exact ⟨rfl, rfl⟩
  | cons attempt later ih =>
      obtain ⟨hattempt, hlater⟩ := List.forall_mem_cons.mp hattempts
      have hfirst := hattempt ring
      rw [oneByOne]
      generalize attempt ring = outcome at hfirst
      obtain ⟨fault | result, next, events⟩ := outcome
      · exact ⟨hfirst.latch, hfirst.events⟩
      · have hrest := ih hlater next
        refine ⟨hrest.latch.trans hfirst.latch, ?_⟩
        show (events ++ (oneByOne later next).events).filter Event.isRecord = []
        rw [List.filter_append, hrest.events, List.append_nil]
        exact hfirst.events

/-! ## Series of attempts and of calls -/

/-- A series that did nothing was stopped, unless there was nothing to do. -/
theorem exists_stop {attempts : List (Ring α → Outcome α (Except Fault β))} (hsome : attempts ≠ [])
    {ring : Ring α} (hnone : (oneByOne attempts ring).result.1 = []) :
    ∃ fault, (oneByOne attempts ring).result.2 = some fault := by
  cases attempts with
  | nil => exact absurd rfl hsome
  | cons attempt later =>
      rw [oneByOne] at hnone ⊢
      generalize attempt ring = outcome at hnone ⊢
      obtain ⟨fault | result, next, events⟩ := outcome
      · exact ⟨fault, rfl⟩
      · cases hnone

theorem oneByOne_tracked (operation : Operation) (line : UInt32)
    (attempts : List (Ring α → Outcome α (Except Fault β))) (ring : Ring α) :
    oneByOne (attempts.map fun attempt ring => (attempt ring).tracked operation line) ring =
      (oneByOne attempts ring).stopTracked operation line := by
  induction attempts generalizing ring with
  | nil => rfl
  | cons attempt later ih =>
      rw [List.map_cons, oneByOne, oneByOne]
      generalize attempt ring = outcome
      obtain ⟨fault | result, next, events⟩ := outcome
      · rfl
      · show ((oneByOne (later.map _) next).map _).after events =
          (((oneByOne later next).map _).after events).stopTracked operation line
        rw [ih]
        generalize oneByOne later next = rest
        obtain ⟨⟨results, _ | fault⟩, final, more⟩ := rest
        · rfl
        · simp [Outcome.stopTracked, Outcome.map, Outcome.after]

/-- A bulk call that counts its attempts loops every series of single calls that makes the
same attempts, whatever name and line the single calls record. -/
theorem loops_of_attempts {attempts : List (Ring α → Outcome α (Except Fault β))}
    (hsome : attempts ≠ [])
    (hattempts : ∀ attempt ∈ attempts, ∀ ring, (attempt ring).Unrecorded ring)
    (single operation : Operation) (caller line : UInt32) (ring : Ring α) :
    Loops operation line ring ((oneByOne attempts ring).stopTracked single caller)
      (((oneByOne attempts ring).map countMoved).tracked operation line) := by
  have hunrecorded := unrecorded_oneByOne hattempts ring
  have hstop : (oneByOne attempts ring).result.1 = [] → _ := exists_stop hsome
  generalize oneByOne attempts ring = tries at hunrecorded hstop ⊢
  constructor
  case same_ring =>
    -- Whatever is recorded, it is on the one field that the two rings are not compared in.
    obtain ⟨⟨_ | ⟨result, results⟩, _ | fault⟩, final, events⟩ := tries <;> rfl
  case same_events =>
    rw [Outcome.others_tracked, Outcome.others_stopTracked]
    rfl
  case same_log =>
    rw [Outcome.logLines_tracked, Outcome.logLines_stopTracked]
    rfl
  case moved =>
    rw [Outcome.result_stopTracked]
    intro hmoved
    obtain ⟨⟨_ | ⟨result, results⟩, stop⟩, final, events⟩ := tries
    · exact absurd rfl hmoved
    · exact ⟨rfl, hunrecorded.latch, hunrecorded.events⟩
  case stopped =>
    rw [Outcome.result_stopTracked]
    intro hnone
    obtain ⟨fault, hfault⟩ := hstop hnone
    obtain ⟨⟨results, stop⟩, final, events⟩ := tries
    dsimp only at hnone hfault
    subst hnone hfault
    exact ⟨fault, rfl, rfl, rfl,
      Event.records_append_failed hunrecorded.events operation fault line⟩

def offers (items : List α) : List (Ring α → Outcome α (Except Fault Unit)) :=
  items.map fun item ring => ring.offer item ring.overwrite

theorem unrecorded_offers (items : List α) :
    ∀ attempt ∈ offers items, ∀ ring, (attempt ring).Unrecorded ring := by
  intro attempt hattempt ring
  obtain ⟨item, -, rfl⟩ := List.mem_map.mp hattempt
  exact ring.unrecorded_offer item ring.overwrite

theorem unrecorded_takes (limit : Nat) :
    ∀ attempt ∈ List.replicate limit (take (α := α)), ∀ ring, (attempt ring).Unrecorded ring := by
  intro attempt hattempt ring
  obtain rfl := List.eq_of_mem_replicate hattempt
  exact ring.unrecorded_take

theorem oneByOne_insert (items : List α) (caller : UInt32) (ring : Ring α) :
    oneByOne (items.map fun item ring => ring.insert item caller) ring =
      (oneByOne (offers items) ring).stopTracked .insert caller := by
  rw [← oneByOne_tracked, offers, List.map_map]
  rfl

theorem oneByOne_remove (count : Nat) (caller : UInt32) (ring : Ring α) :
    oneByOne (List.replicate count fun ring => ring.remove caller) ring =
      (oneByOne (List.replicate count take) ring).stopTracked .remove caller := by
  rw [← oneByOne_tracked, List.map_replicate]
  rfl

/-- Looking at the mode once, beforehand, is looking at it before every item. -/
theorem offerEach_eq (items : List α) (ring : Ring α) :
    offerEach ring.overwrite items ring =
      (oneByOne (offers items) ring).map fun moved => (moved.1.length, moved.2) := by
  induction items generalizing ring with
  | nil => rfl
  | cons item later ih =>
      have hmode := overwrite_offer ring item ring.overwrite
      rw [offerEach, offers, List.map_cons, oneByOne]
      generalize ring.offer item ring.overwrite = outcome at hmode ⊢
      obtain ⟨fault | _, next, events⟩ := outcome
      · rfl
      · have hlater := ih next
        rw [show next.overwrite = ring.overwrite from hmode] at hlater
        dsimp only
        rw [hlater]
        rfl

theorem takeEach_eq (limit : Nat) (ring : Ring α) :
    takeEach limit ring = oneByOne (List.replicate limit take) ring := by
  induction limit generalizing ring with
  | zero => rfl
  | succ limit ih =>
      rw [takeEach, List.replicate_succ, oneByOne]
      generalize ring.take = outcome
      obtain ⟨fault | item, next, events⟩ := outcome
      · rfl
      · dsimp only
        rw [ih]

/-! ## Bulk calls -/

section

variable {ring : Ring α} {slots : Slots α} (hslots : ring.storage = .lent slots) (line : UInt32)

include hslots

theorem insertMany_eq {items : List α} (hitems : items ≠ []) :
    ring.insertMany items line =
      ((oneByOne (offers items) ring).map countMoved).tracked .insertMany line := by
  have hsome : items.isEmpty = false := by simpa using hitems
  rw [insertMany, offerAll, hslots]
  simp only [Storage.slots?, hsome, Bool.false_eq_true, if_false, offerEach_eq]
  generalize oneByOne _ ring = tries
  obtain ⟨⟨_ | ⟨result, results⟩, _ | fault⟩, final, events⟩ := tries <;> rfl

theorem removeMany_eq {buffer : List α} (hbuffer : buffer ≠ []) :
    ring.removeMany buffer line =
      let tries := oneByOne (List.replicate buffer.length take) ring
      ((tries.map countMoved).tracked .removeMany line).map fun count =>
        (count, fillFront tries.result.1 buffer) := by
  have hsome : buffer.length ≠ 0 := by simpa using hbuffer
  rw [removeMany_eq_takeAll, takeAll, hslots]
  simp only [Storage.slots?, hsome, if_false, takeEach_eq]
  generalize oneByOne _ ring = tries
  obtain ⟨⟨_ | ⟨result, results⟩, _ | fault⟩, final, events⟩ := tries <;> rfl

theorem fst_removeMany {buffer : List α} (hbuffer : buffer ≠ []) :
    (ring.removeMany buffer line).map Prod.fst =
      ((oneByOne (List.replicate buffer.length take) ring).map countMoved).tracked .removeMany
        line := by
  rw [removeMany_eq hslots line hbuffer]
  rfl

theorem cells_removeMany {buffer : List α} (hbuffer : buffer ≠ []) :
    (ring.removeMany buffer line).result.2 =
      fillFront (oneByOne (List.replicate buffer.length take) ring).result.1 buffer := by
  rw [removeMany_eq hslots line hbuffer]
  rfl

end

theorem getElem?_fillFront (items buffer : List α) (i : Nat) :
    (fillFront items buffer)[i]? = if i < items.length then items[i]? else buffer[i]? := by
  rw [fillFront, List.getElem?_append]
  split
  · rfl
  · rw [List.getElem?_drop, Nat.add_sub_cancel' (by omega)]

theorem length_fillFront {items buffer : List α} (hfits : items.length ≤ buffer.length) :
    (fillFront items buffer).length = buffer.length := by
  rw [fillFront, List.length_append, List.length_drop]
  omega

theorem Loops.countOf_eq {operation : Operation} {line : UInt32} {ring : Ring α}
    {singles : Outcome α (List β × Option Fault)} {bulk : Outcome α (Except Fault Nat)}
    (hloops : Loops operation line ring singles bulk) :
    countOf bulk.result = singles.result.1.length := by
  by_cases hnone : singles.result.1 = []
  · obtain ⟨fault, -, hresult, -⟩ := hloops.stopped hnone
    rw [hresult, hnone]
    rfl
  · rw [(hloops.moved hnone).1]
    rfl

/-- A bulk call does what single calls would, one after another until one fails. What differs
is what is told and recorded: it tells how many items moved and records nothing as long as any
did, and otherwise records what the first single call failed with, once, as its own failure.
Items that are removed fill a buffer from the front, and the cells behind them stay as they
were. A call that only counts does the same, and counts the items. -/
theorem bulk_loops_singles {α : Type} {ring : Ring α} {slots : Slots α}
    (hslots : ring.storage = .lent slots) (caller line : UInt32) :
    (∀ items : List α, items ≠ [] →
      let singles := oneByOne (items.map fun item ring => ring.insert item caller) ring
      let bulk := ring.insertMany items line
      Loops .insertMany line ring singles bulk ∧
        ring.insertManyCount items line = ⟨singles.result.1.length, bulk.ring, bulk.events⟩) ∧
      ∀ buffer : List α, buffer ≠ [] →
        let singles := oneByOne (List.replicate buffer.length fun ring => ring.remove caller) ring
        let bulk := ring.removeMany buffer line
        let cells := bulk.result.2
        Loops .removeMany line ring singles (bulk.map Prod.fst) ∧
          cells.length = buffer.length ∧
          (∀ i, cells[i]? =
            if i < singles.result.1.length then singles.result.1[i]? else buffer[i]?) ∧
          ring.removeManyCount buffer line =
            ⟨(singles.result.1.length, cells), bulk.ring, bulk.events⟩ := by
  constructor
  · intro items hitems
    have hsome : offers items ≠ [] := by simpa [offers] using hitems
    have hloops := loops_of_attempts hsome (unrecorded_offers items) .insert .insertMany caller
      line ring
    rw [← oneByOne_insert, ← insertMany_eq hslots line hitems] at hloops
    refine ⟨hloops, ?_⟩
    rw [← hloops.countOf_eq]
    rfl
  · intro buffer hbuffer singles bulk cells
    have hsome : List.replicate buffer.length (take (α := α)) ≠ [] := by simpa using hbuffer
    have hloops := loops_of_attempts hsome (unrecorded_takes buffer.length) .remove .removeMany
      caller line ring
    rw [← oneByOne_remove, ← fst_removeMany hslots line hbuffer] at hloops
    have hsingles : (oneByOne (List.replicate buffer.length take) ring).result =
        singles.result := by
      rw [show singles = _ from oneByOne_remove buffer.length caller ring,
        Outcome.result_stopTracked]
    have hcells : cells = fillFront singles.result.1 buffer := by
      rw [← hsingles]
      exact cells_removeMany hslots line hbuffer
    have hcount : singles.result.1.length ≤ buffer.length := by
      rw [← hsingles, ← takeEach_eq]
      exact length_takeEach_le buffer.length ring
    refine ⟨hloops, ?_, ?_, ?_⟩
    · rw [hcells, length_fillFront hcount]
    · intro i
      rw [hcells, getElem?_fillFront]
    · rw [← hloops.countOf_eq]
      rfl

def oneShort : Ring Nat :=
  { Session.astride.ring with producer := 0, recorder := .on .zero }

theorem bulk_loops_singles_oneShort :
    let singles := oneByOne ([30, 40].map fun item ring => ring.insert item 7) oneShort
    let bulk := oneShort.insertMany [30, 40] 9
    (∃ slots, oneShort.storage = .lent slots) ∧ [30, 40] ≠ [] ∧ [0, 0, 0] ≠ [] ∧
      Loops .insertMany 9 oneShort singles bulk ∧ singles.result = ([()], some .full) ∧
      singles.ring.latch = .ofFailure .insert .full 7 ∧ bulk.result = .ok 1 ∧
      bulk.ring.latch = .clear ∧ bulk.ring.counters = ⟨2, 1, 0, 1, 0⟩ ∧
      (oneShort.removeMany [0, 0, 0] 9).result = (.ok 1, [10, 0, 0]) ∧
      oneShort.removeManyCount [0, 0, 0] 9 =
        ⟨(1, [10, 0, 0]), (oneShort.removeMany [0, 0, 0] 9).ring,
          (oneShort.removeMany [0, 0, 0] 9).events⟩ := by
  intro singles bulk
  have hslots : oneShort.storage = .lent _ := rfl
  have hitems : [30, 40] ≠ [] := by decide
  have hbuffer : [0, 0, 0] ≠ [] := by decide
  obtain ⟨hinsert, hremove⟩ := bulk_loops_singles hslots 7 9
  exact ⟨⟨_, hslots⟩, hitems, hbuffer, (hinsert [30, 40] hitems).1, rfl, rfl, rfl, rfl, rfl, rfl,
    (hremove [0, 0, 0] hbuffer).2.2.2⟩

end Ring

end SpscRing
