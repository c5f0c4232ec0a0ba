import SpscRing.Proofs.Accounting
import SpscRing.Proofs.Mode
import SpscRing.Proofs.Queue
/-!
# Dropping is removing first

A ring that drops its oldest item to make room goes the way of one that does not and has an
item removed before each insert that finds it full. What is dropped is what would have been
removed, and the number of removes is all that the two are told apart by afterwards.
-/

namespace SpscRing

/-! ## More removes on the counters -/

def Counters.countRemoves (times : Nat) (counters : Counters) : Counters :=
  { counters with removes := counters.removes + .ofNat times }

/-- The ring in another mode, with so many more removes on its counters if it keeps any. -/
def Ring.recast {α : Type} (mode : Bool) (removes : Nat) (ring : Ring α) : Ring α :=
  (ring.inMode mode).count (.countRemoves removes)

def Outcome.recast {α β : Type} (mode : Bool) (removes : Nat) (outcome : Outcome α β) :
    Outcome α β :=
  { outcome with ring := outcome.ring.recast mode removes }

/-- Removes that are counted in advance do not get in the way of other counting. -/
def Disguise.recast (mode : Bool) (removes : Nat) : Disguise where
  overwrite _ := mode
  latch := id
  recorder kept := kept.record (.countRemoves removes)
  record_recorder {change} kept hcount := by
    cases kept with
    | off => rfl
    | on counters =>
        cases hcount with
        | insert | overflow | underflow => rfl
        | remove =>
            simp only [Recorder.record, Counters.countRemove, Counters.countRemoves,
              UInt64.add_assoc, UInt64.add_comm 1]

/-! ## Rings beside one another -/

/-- Whether a call moves at most one item, and asks neither for the mode nor for counters. -/
def SharedCall.isSingle {α : Type} : SharedCall α → Bool
  | insert _ _ | remove _ | peek _ _ | check _ | isSound _ => true
  | query .overwriteEnabled | query .counters | query .text => false
  | query _ => true
  | _ => false

def SharedCall.isInsert {α : Type} : SharedCall α → Bool
  | insert _ _ => true
  | _ => false

/-- What a call leaves behind where room is made for it: the outcome of the remove before it, if
there was one, and its own. -/
structure Roomed (α : Type) where
  removed? : Option (Outcome α (Except Fault α))
  outcome : Outcome α (Answer α)

namespace SharedCall

variable {α : Type}

def outcomes : List (SharedCall α) → Ring α → List (Outcome α (Answer α))
  | [], _ => []
  | call :: later, ring => call.run ring :: outcomes later (call.run ring).ring

/-- A call, and before it a remove if it is an insert and the ring is full. -/
def runInRoom (line : UInt32) (call : SharedCall α) (ring : Ring α) : Roomed α :=
  if call.isInsert && ring.isFull then
    let removed := ring.remove line
    ⟨some removed, call.run removed.ring⟩
  else
    ⟨none, call.run ring⟩

def outcomesInRoom (line : UInt32) : List (SharedCall α) → Ring α → List (Roomed α)
  | [], _ => []
  | call :: later, ring =>
    let roomed := call.runInRoom line ring
    roomed :: outcomesInRoom line later roomed.outcome.ring

end SharedCall

/-- What calls leave behind on a ring that drops old items, beside what the same calls leave
behind on one that does not and has room made for each, after so many items were dropped on the
one and removed on the other. -/
inductive Beside {α : Type} : Nat → List (Outcome α (Answer α)) → List (Roomed α) → Prop where
  | done (dropped : Nat) : Beside dropped [] []
  /-- Nothing was dropped, and there was no remove. -/
  | same {dropped : Nat} {outcome other : Outcome α (Answer α)}
      {later : List (Outcome α (Answer α))} {others : List (Roomed α)}
      (hresult : other.result = outcome.result)
      (hring : other.ring = outcome.ring.recast false dropped)
      (hevents : other.events = outcome.events)
      (hkept : outcome.events.filterMap Event.evicted? = [])
      (hlater : Beside dropped later others) :
      Beside dropped (outcome :: later) (⟨none, other⟩ :: others)
  /-- One item was dropped, and before that the remove on the other ring took off the same. -/
  | dropped {dropped : Nat} {outcome other : Outcome α (Answer α)}
      {removed : Outcome α (Except Fault α)} {later : List (Outcome α (Answer α))}
      {others : List (Roomed α)} (item : α) (slot : UInt64) (hremoved : removed.result = .ok item)
      (hresult : other.result = outcome.result)
      (hring : other.ring = outcome.ring.recast false (dropped + 1))
      (hevents : outcome.events = .evicted item slot :: other.events)
      (hone : outcome.events.filterMap Event.evicted? = [item])
      (hlater : Beside (dropped + 1) later others) :
      Beside dropped (outcome :: later) (⟨some removed, other⟩ :: others)

section

variable {α : Type} {dropped : Nat} {dropping : List (Outcome α (Answer α))}
  {roomed : List (Roomed α)}

/-- What the removes return is what was dropped, in order. -/
theorem Beside.items (hbeside : Beside dropped dropping roomed) :
    (roomed.filterMap Roomed.removed?).map Outcome.result =
      ((dropping.flatMap Outcome.events).filterMap Event.evicted?).map .ok := by
  induction hbeside with
  | done => rfl
  | same _ _ _ hkept _ ih =>
      rw [List.flatMap_cons, List.filterMap_append, hkept]
      exact ih
  | dropped _ _ hremoved _ _ _ hone _ ih =>
      rw [List.flatMap_cons, List.filterMap_append, hone]
      exact List.cons_eq_cons.mpr ⟨hremoved, ih⟩

/-- The log tells of a dropped item, of one, just where there was a remove. -/
theorem Beside.log (hbeside : Beside dropped dropping roomed) :
    List.Forall₂ (fun outcome other => countLines "evicted oldest item" outcome.events =
      if other.removed?.isSome then 1 else 0) dropping roomed := by
  induction hbeside with
  | done => exact .nil
  | same _ _ _ hkept _ ih =>
      refine .cons ?_ ih
      rw [countLines_evicted, hkept]
      rfl
  | dropped _ _ _ _ _ _ hone _ ih =>
      refine .cons ?_ ih
      rw [countLines_evicted, hone]
      rfl

end

/-! ## Single calls -/

theorem Outcome.recast_tracked {α β : Type} (mode : Bool) (removes : Nat)
    (outcome : Outcome α (Except Fault β)) (operation : Operation) (line : UInt32) :
    (outcome.recast mode removes).tracked operation line =
      (outcome.tracked operation line).recast mode removes :=
  outcome.disguised_tracked
    (fun _ => rfl : ∀ latch, (Disguise.recast mode removes).latch latch = latch) operation line

namespace Ring

variable {α : Type} {ring : Ring α}

theorem isFull_iff {slots : Slots α} (hslots : ring.storage = .lent slots)
    (hrange : ring.inRange = true) :
    ring.isFull = true ↔ ring.span.toNat + 1 = slots.cells.size := by
  have hspan := span_lt_size hslots hrange
  have hfree := toNat_freeSpace hrange
  rw [toNat_capacity_of_slots hslots] at hfree
  rw [isFull, beq_iff_eq, ← UInt64.toNat_inj, hfree, UInt64.toNat_zero]
  omega

theorem isFull_eq_false_iff (hrange : ring.inRange = true) :
    ring.isFull = false ↔ ring.span.toNat + 1 < ring.capacity.toNat := by
  obtain ⟨slots, hslots⟩ := exists_slots_of_inRange hrange
  have hspan := span_lt_size hslots hrange
  rw [Bool.eq_false_iff, ne_eq, isFull_iff hslots hrange, toNat_capacity_of_slots hslots]
  omega

theorem isEmpty_eq_false_iff (hrange : ring.inRange = true) :
    ring.isEmpty = false ↔ 0 < ring.span.toNat := by
  rw [Bool.eq_false_iff, ne_eq, isEmpty, beq_iff_eq, occupancy_of_inRange hrange,
    ← UInt64.toNat_inj, UInt64.toNat_zero, Nat.pos_iff_ne_zero]

theorem offer_of_room (hrange : ring.inRange = true)
    (hroom : ring.span.toNat + 1 < ring.capacity.toNat) (item : α) (mode : Bool) :
    ring.offer item mode = ring.accept item := by
  obtain ⟨slots, hslots⟩ := exists_slots_of_inRange hrange
  rw [toNat_capacity_of_slots hslots] at hroom
  have hfull : ring.span ≠ slots.capacity - 1 := by
    rw [ne_eq, ← UInt64.toNat_inj, slots.toNat_capacity_sub_one]
    omega
  simp [offer, hslots, Storage.slots?, hrange, hfull]

theorem offer_of_full {slots : Slots α} (hslots : ring.storage = .lent slots)
    (hrange : ring.inRange = true) (hfull : ring.span.toNat + 1 = slots.cells.size)
    (hmany : 2 ≤ slots.cells.size) (item : α) :
    ring.offer item true =
      (ring.release.accept item).after
        [.evicted (slots.read ring.consumer) (slots.slotOf ring.consumer)] := by
  have hlast : ring.span = slots.capacity - 1 := by
    rw [← UInt64.toNat_inj, slots.toNat_capacity_sub_one]
    omega
  have hone : slots.capacity ≠ 1 := by
    rw [ne_eq, slots.capacity_eq_one_iff]
    omega
  simp [offer, hslots, Storage.slots?, hrange, hlast, hone, evict_eq_release]

theorem take_of_some {slots : Slots α} (hslots : ring.storage = .lent slots)
    (hrange : ring.inRange = true) (hsome : 0 < ring.span.toNat) :
    ring.take =
      ⟨.ok (slots.read ring.consumer), ring.release.count .countRemove,
        [.delivered (slots.read ring.consumer)]⟩ := by
  obtain ⟨hproducer, hconsumer, _⟩ := inRange_iff.mp hrange
  have hapart : ring.consumer ≠ ring.producer := fun hmeet =>
    Nat.ne_of_gt hsome ((Index.toNat_span_eq_zero_iff hproducer hconsumer).mpr hmeet)
  simp [take, hslots, Storage.slots?, hrange, hapart]

theorem recast_zero (ring : Ring α) (mode : Bool) : ring.recast mode 0 = ring.inMode mode := by
  obtain ⟨storage, producer, consumer, overwrite, pacing, latch, recorder⟩ := ring
  cases recorder with
  | off => rfl
  | on counters => simp [recast, inMode, count, Recorder.record, Counters.countRemoves]

theorem recast_succ (ring : Ring α) (mode : Bool) (removes : Nat) :
    (ring.count .countRemove).recast mode removes = ring.recast mode (removes + 1) := by
  have hsum : (1 : UInt64) + .ofNat removes = .ofNat (removes + 1) := by
    rw [UInt64.ofNat_add, UInt64.add_comm]
    rfl
  obtain ⟨storage, producer, consumer, overwrite, pacing, latch, recorder⟩ := ring
  cases recorder with
  | off => rfl
  | on counters =>
      simp [recast, inMode, count, Recorder.record, Counters.countRemove, Counters.countRemoves,
        UInt64.add_assoc, hsum]

end Ring

namespace SharedCall

open SpscRing.Ring

variable {α : Type} {ring : Ring α}

theorem events_remove (ring : Ring α) (line : UInt32) :
    (ring.remove line).events.filterMap Event.evicted? = [] := by
  have hend := ring.taken
  unfold Ring.remove
  generalize ring.take = outcome at hend ⊢
  cases hend with
  | inert | corrupted | empty | delivered => rfl

theorem events_check (ring : Ring α) (line : UInt32) :
    (ring.check line).events.filterMap Event.evicted? = [] := by
  have hend := ring.checked
  unfold Ring.check
  generalize ring.integrity = outcome at hend ⊢
  cases hend with
  | inert | corrupted | sound => rfl

theorem remove_recast (ring : Ring α) (line : UInt32) (mode : Bool) (removes : Nat) :
    (ring.recast mode removes).remove line = (ring.remove line).recast mode removes := by
  have htake : (ring.recast mode removes).take = ring.take.recast mode removes :=
    ring.disguised_take (.recast mode removes)
  rw [Ring.remove, htake, Outcome.recast_tracked]
  rfl

theorem check_recast (ring : Ring α) (line : UInt32) (mode : Bool) (removes : Nat) :
    (ring.recast mode removes).check line = (ring.check line).recast mode removes := by
  have hintegrity : (ring.recast mode removes).integrity = ring.integrity.recast mode removes :=
    ring.disguised_integrity (.recast mode removes)
  rw [Ring.check, hintegrity, Outcome.recast_tracked]
  rfl

/-- A call that inserts nothing goes by neither the mode nor the counters, and drops nothing. -/
theorem run_recast {call : SharedCall α} (hsingle : call.isSingle = true)
    (hother : call.isInsert = false) (ring : Ring α) (mode : Bool) (removes : Nat) :
    call.run (ring.recast mode removes) = (call.run ring).recast mode removes ∧
      (call.run ring).events.filterMap Event.evicted? = [] := by
  cases call with
  | insert => cases hother
  | remove line =>
      exact ⟨congrArg (Outcome.map Answer.item) (remove_recast ring line mode removes),
        events_remove ring line⟩
  | peek offset line =>
      refine ⟨congrArg (Outcome.map Answer.item)
        (Outcome.recast_tracked mode removes (.query ring (ring.itemAt offset)) .peek line), ?_⟩
      show ((Outcome.query ring (ring.itemAt offset)).tracked .peek line).events.filterMap _ = []
      cases ring.itemAt offset <;> rfl
  | check line =>
      exact ⟨congrArg (Outcome.map Answer.unit) (check_recast ring line mode removes),
        events_check ring line⟩
  | isSound line =>
      exact ⟨congrArg (Outcome.map fun result : Except Fault Unit => Answer.flag result.isOk)
        (check_recast ring line mode removes), events_check ring line⟩
  | query question =>
      cases question with
      | overwriteEnabled | counters | text => cases hsingle
      | _ => exact ⟨rfl, rfl⟩
  | insertMany | insertManyCount | removeMany | removeManyCount | insertWithin | removeWithin
  | forceIndices => cases hsingle

theorem accept_recast (ring : Ring α) (item : α) (mode : Bool) (removes : Nat) :
    (ring.recast mode removes).accept item = (ring.accept item).recast mode removes :=
  ring.disguised_accept (.recast mode removes) item

theorem run_insert_of_room {ring : Ring α} (hrange : ring.inRange = true)
    (hroom : ring.span.toNat + 1 < ring.capacity.toNat) (item : α) (line : UInt32) :
    (insert item line).run ring = (ring.accept item).map .unit := by
  show ((ring.offer item ring.overwrite).tracked .insert line).map Answer.unit = _
  rw [offer_of_room hrange hroom]
  rfl

section

variable {ring : Ring α} {slots : Slots α} (hslots : ring.storage = .lent slots)
  (hrange : ring.inRange = true) (item : α) (line caller : UInt32) (dropped : Nat)

include hslots hrange

theorem runInRoom_of_room (hroom : ring.span.toNat + 1 < slots.cells.size) :
    (insert item caller).run ring = (ring.accept item).map .unit ∧
      (insert item caller).runInRoom line (ring.recast false dropped) =
        ⟨none, ((ring.accept item).map .unit).recast false dropped⟩ := by
  have hspare : (ring.recast false dropped).isFull = false := by
    refine Bool.eq_false_iff.mpr fun hfull => ?_
    have hlast := (isFull_iff hslots hrange).mp hfull
    omega
  have hother : (ring.recast false dropped).inRange = true := hrange
  rw [← toNat_capacity_of_slots hslots] at hroom
  refine ⟨run_insert_of_room hrange hroom item caller, ?_⟩
  rw [runInRoom, hspare, Bool.and_false, if_neg Bool.false_ne_true,
    run_insert_of_room hother hroom, accept_recast]
  rfl

/-- The remove takes off what would have been dropped. -/
theorem runInRoom_of_full (hmode : ring.overwrite = true)
    (hfull : ring.span.toNat + 1 = slots.cells.size) (hmany : 2 ≤ slots.cells.size) :
    (insert item caller).run ring =
        ((ring.release.accept item).after
          [.evicted (slots.read ring.consumer) (slots.slotOf ring.consumer)]).map .unit ∧
      let removed := (ring.recast false dropped).remove line
      removed.result = .ok (slots.read ring.consumer) ∧
        (insert item caller).runInRoom line (ring.recast false dropped) =
          ⟨some removed, ((ring.release.accept item).map .unit).recast false (dropped + 1)⟩ := by
  have hsome : 0 < ring.span.toNat := by omega
  constructor
  · show ((ring.offer item ring.overwrite).tracked .insert caller).map Answer.unit = _
    rw [hmode, offer_of_full hslots hrange hfull hmany]
    rfl
  · have hout : (ring.recast false dropped).isFull = true := (isFull_iff hslots hrange).mpr hfull
    have hremoved : (ring.recast false dropped).remove line =
        ⟨.ok (slots.read ring.consumer), ring.release.recast false (dropped + 1),
          [.delivered (slots.read ring.consumer)]⟩ := by
      rw [remove_recast, Ring.remove, take_of_some hslots hrange hsome, ← recast_succ]
      rfl
    have hreleased : (ring.release.recast false (dropped + 1)).inRange = true :=
      (contents_release hrange hsome).1
    have hroom := room_release hslots hrange hfull hmany
    refine ⟨congrArg Outcome.result hremoved, ?_⟩
    rw [runInRoom, hout, isInsert, Bool.and_self, if_pos rfl]
    simp only [hremoved]
    rw [run_insert_of_room hreleased hroom, accept_recast]
    rfl

end

theorem steady_of_isSingle {call : SharedCall α} (hsingle : call.isSingle = true) :
    call.steady = true := by
  cases call with
  | insertWithin | removeWithin | forceIndices => cases hsingle
  | _ => rfl

theorem course_of_isSingle {call : SharedCall α} (hsingle : call.isSingle = true) {ring : Ring α}
    (hrange : ring.inRange = true) :
    (call.run ring).ring.inRange = true ∧ (call.run ring).ring.overwrite = ring.overwrite ∧
      (call.run ring).ring.capacity = ring.capacity := by
  have hmoves : Course (Move false) ring _ _ :=
    call.moves_run (.inr (steady_of_isSingle hsingle)) ring
  have hcourse : Course (Change false) ring _ _ := hmoves.mono fun _ _ _ => .move
  exact ⟨(hcourse.since hrange).inRange, hmoves.overwrite_eq, (hcourse.since hrange).capacity⟩

theorem runInRoom_of_other {line : UInt32} {call : SharedCall α} (hother : call.isInsert = false)
    (ring : Ring α) : call.runInRoom line ring = ⟨none, call.run ring⟩ := by
  rw [runInRoom, hother, Bool.false_and]
  rfl

/-- One call on the two rings: it leaves them as they were to each other, but for one more
remove where an item was dropped. -/
theorem beside_call (line : UInt32) {call : SharedCall α} (hsingle : call.isSingle = true)
    {ring : Ring α} (hmode : ring.overwrite = true) (hrange : ring.inRange = true)
    (hmany : 2 ≤ ring.capacity.toNat) (dropped : Nat) :
    let outcome := call.run ring
    let roomed := call.runInRoom line (ring.recast false dropped)
    (call.isInsert = true → outcome.result = .unit (.ok ())) ∧
      ∃ now, roomed.outcome.ring = outcome.ring.recast false now ∧
        ∀ later others, Beside now later others →
          Beside dropped (outcome :: later) (roomed :: others) := by
  dsimp only
  cases hinsert : call.isInsert with
  | false =>
      obtain ⟨hrun, hnone⟩ := run_recast hsingle hinsert ring false dropped
      rw [runInRoom_of_other hinsert, hrun]
      exact ⟨nofun, dropped, rfl, fun _ _ => .same rfl rfl rfl hnone⟩
  | true =>
      cases call with
      | insert item caller =>
          obtain ⟨slots, hslots⟩ := exists_slots_of_inRange hrange
          have hspan := span_lt_size hslots hrange
          rw [toNat_capacity_of_slots hslots] at hmany
          by_cases hfull : ring.span.toNat + 1 = slots.cells.size
          · obtain ⟨hrun, hremoved, hother⟩ :=
              runInRoom_of_full hslots hrange item line caller dropped hmode hfull hmany
            rw [hrun, hother]
            exact ⟨fun _ => rfl, dropped + 1, rfl, fun _ _ => .dropped _ _ hremoved rfl rfl rfl rfl⟩
          · obtain ⟨hrun, hother⟩ :=
              runInRoom_of_room hslots hrange item line caller dropped (by omega)
            rw [hrun, hother]
            exact ⟨fun _ => rfl, dropped, rfl, fun _ _ => .same rfl rfl rfl rfl⟩
      | _ => cases hinsert

theorem beside_outcomes (line : UInt32) {calls : List (SharedCall α)}
    (hcalls : ∀ call ∈ calls, call.isSingle = true) {ring : Ring α}
    (hmode : ring.overwrite = true) (hrange : ring.inRange = true)
    (hmany : 2 ≤ ring.capacity.toNat) (dropped : Nat) :
    Beside dropped (outcomes calls ring) (outcomesInRoom line calls (ring.recast false dropped)) ∧
      List.Forall₂ (fun call outcome => call.isInsert = true → outcome.result = .unit (.ok ()))
        calls (outcomes calls ring) := by
  induction calls generalizing ring dropped with
  | nil => exact ⟨.done dropped, .nil⟩
  | cons call later ih =>
      obtain ⟨hsingle, hlater⟩ := List.forall_mem_cons.mp hcalls
      obtain ⟨hafter, hkept, hcapacity⟩ := course_of_isSingle hsingle hrange
      obtain ⟨hinsert, now, hring, hbeside⟩ :=
        beside_call line hsingle hmode hrange hmany dropped
      rw [← hcapacity] at hmany
      obtain ⟨hrest, hinserts⟩ := ih hlater (hkept.trans hmode) hafter hmany now
      rw [outcomes, outcomesInRoom]
      simp only [hring]
      exact ⟨hbeside _ _ hrest, .cons hinsert hinserts⟩

/-- A ring that drops its oldest item to make room is told apart from one that does not, and
has an item removed before each insert that finds it full, by the number of removes alone. From
any indices in range, every call but such a remove answers the same on both, and leaves the
same ring and the same events but for what was dropped. The removes return what was dropped, in
order; the log tells of one dropped item just where there was a remove; and on the ring that
drops old items no insert fails. -/
theorem dropping_is_removing_first (line : UInt32) {calls : List (SharedCall α)}
    (hcalls : ∀ call ∈ calls, call.isSingle = true) {ring : Ring α}
    (hmode : ring.overwrite = true) (hrange : ring.inRange = true)
    (hmany : 2 ≤ ring.capacity.toNat) :
    let dropping := outcomes calls ring
    let roomed := outcomesInRoom line calls (ring.inMode false)
    Beside 0 dropping roomed ∧
      (roomed.filterMap Roomed.removed?).map Outcome.result =
        ((dropping.flatMap Outcome.events).filterMap Event.evicted?).map .ok ∧
      List.Forall₂ (fun outcome other => countLines "evicted oldest item" outcome.events =
        if other.removed?.isSome then 1 else 0) dropping roomed ∧
      List.Forall₂ (fun call outcome => call.isInsert = true → outcome.result = .unit (.ok ()))
        calls dropping := by
  obtain ⟨hbeside, hinserts⟩ := beside_outcomes line hcalls hmode hrange hmany 0
  rw [recast_zero] at hbeside
  exact ⟨hbeside, hbeside.items, hbeside.log, hinserts⟩

end SharedCall

def Ring.overLap : Ring Nat :=
  { Session.astride.ring with overwrite := true, recorder := .on .zero }

open SharedCall SpscRing.Ring in
theorem SharedCall.dropping_is_removing_first_overLap :
    let calls : List (SharedCall Nat) :=
      [.insert 30 1, .query .occupancy, .insert 40 2, .remove 3, .insert 50 4, .isSound 5]
    let dropping := outcomes calls overLap
    let roomed := outcomesInRoom 9 calls (overLap.inMode false)
    (∀ call ∈ calls, call.isSingle = true) ∧ overLap.overwrite = true ∧
      overLap.inRange = true ∧ 2 ≤ overLap.capacity.toNat ∧ Beside 0 dropping roomed ∧
      (roomed.filterMap Roomed.removed?).map Outcome.result = [.ok 10, .ok 20] ∧
      dropping.map (·.ring.counters) =
        [⟨2, 1, 0, 0, 0⟩, ⟨2, 1, 0, 0, 0⟩, ⟨2, 2, 0, 0, 0⟩, ⟨2, 2, 1, 0, 0⟩, ⟨2, 3, 1, 0, 0⟩,
          ⟨2, 3, 1, 0, 0⟩] ∧
      roomed.map (·.outcome.ring.counters) =
        [⟨2, 1, 1, 0, 0⟩, ⟨2, 1, 1, 0, 0⟩, ⟨2, 2, 2, 0, 0⟩, ⟨2, 2, 3, 0, 0⟩, ⟨2, 3, 3, 0, 0⟩,
          ⟨2, 3, 3, 0, 0⟩] := by
  intro calls dropping roomed
  have hcalls : ∀ call ∈ calls, call.isSingle = true := by decide
  have hmany : 2 ≤ overLap.capacity.toNat := by decide
  obtain ⟨hbeside, hitems, _⟩ := dropping_is_removing_first 9 hcalls rfl rfl hmany
  exact ⟨hcalls, rfl, rfl, hmany, hbeside, hitems.trans rfl, rfl, rfl⟩

end SpscRing
