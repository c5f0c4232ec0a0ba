import SpscRing.Proofs.Delivery
/-!
# Where accepted items lie

Memory changes only when an item comes in, and then in one slot. As the lap is a multiple
of the capacity, that slot is the number of the item modulo the capacity, however often
the producer's index has gone round. So a slot has the latest of the items that it stands
for, and before the first of them what its owner left there.
-/

namespace SpscRing

variable {α : Type}

/-- The latest of some items, numbered from zero, whose number is `slot` modulo `size`. -/
def latest? (size slot : Nat) (items : List α) : Option α :=
  (items.zipIdx.filter fun numbered => numbered.2 % size = slot).getLast?.map Prod.fst

theorem latest?_concat (size slot : Nat) (items : List α) (item : α) :
    latest? size slot (items ++ [item]) =
      if items.length % size = slot then some item else latest? size slot items := by
  rw [latest?, List.zipIdx_append, List.filter_append, List.zipIdx_singleton, Nat.zero_add]
  by_cases hslot : items.length % size = slot
  · rw [List.filter_cons_of_pos (by simpa using hslot), if_pos hslot]
    simp
  · rw [List.filter_cons_of_neg (by simpa using hslot), if_neg hslot]
    simp [latest?]

namespace Ring

/-! ## What changes write -/

/-- What can happen to the memory of a ring: nothing, or an item comes in and is written
into the slot of the producer's index. -/
inductive Writes (ring : Ring α) (events : List (Event α)) (next : Ring α) : Prop where
  | nothing (hstorage : next.storage = ring.storage) (harrivals : arrivals events = [])
  | item (item : α) (hstorage : next.storage = ring.storage.write ring.producer item)
      (harrivals : arrivals events = [item])

theorem Move.writes {stray : Bool} {ring next : Ring α} {events : List (Event α)}
    (hmove : Move stray ring events next) : Writes ring events next := by
  cases hmove with
  | offer _ item =>
      have hend := offered ring item ring.overwrite
      generalize ring.offer item ring.overwrite = outcome at hend ⊢
      cases hend with
      | inert | corrupted | full => exact .nothing rfl rfl
      | accepted => exact .item item rfl rfl
      | replaced =>
          -- The drop before moves the other index, and not the one that names the slot.
          have hwritten : (ring.release.accept item).ring.storage =
              ring.release.storage.write ring.release.producer item := rfl
          rw [storage_release, producer_release] at hwritten
          exact .item item hwritten rfl
  | take =>
      have hend := taken ring
      generalize ring.take = outcome at hend ⊢
      cases hend with
      | inert | corrupted | empty => exact .nothing rfl rfl
      | delivered => exact .nothing (storage_release ring) rfl
  | check =>
      have hend := checked ring
      generalize ring.integrity = outcome at hend ⊢
      cases hend with
      | inert | corrupted | sound => exact .nothing rfl rfl
  | fail | giveUp | force => exact .nothing rfl rfl

theorem Writes.capacity_eq {ring next : Ring α} {events : List (Event α)}
    (hwrites : Writes ring events next) : next.capacity = ring.capacity := by
  cases hwrites with
  | nothing hstorage => exact congrArg Storage.capacity hstorage
  | item item hstorage =>
      exact (congrArg Storage.capacity hstorage).trans (Storage.capacity_write _ _ _)

theorem Change.writes {ring next : Ring α} {events : List (Event α)}
    (hchange : Change false ring events next) : Writes ring events next := by
  cases hchange with
  | move hmove => exact hmove.writes
  | setUp hstray => cases hstray
  | setPacing _ pacing line =>
      have hend := ring.paced pacing line
      generalize ring.setPacing pacing line = outcome at hend ⊢
      cases hend with
      | installed | refused => exact .nothing rfl rfl
  | setOverwrite | resetCounters | clearFailure => exact .nothing rfl rfl

theorem Course.storage_eq {ring next : Ring α} {events : List (Event α)}
    (hcourse : Course (Change false) ring events next) (harrivals : arrivals events = []) :
    next.storage = ring.storage := by
  induction hcourse with
  | rest => rfl
  | step _ hchange ih =>
      rw [arrivals_append, List.append_eq_nil_iff] at harrivals
      cases hchange.writes with
      | nothing hstorage => exact hstorage.trans (ih harrivals.1)
      | item item _ hcame =>
          rw [harrivals.2] at hcame
          cases hcame

/-! ## What memory holds -/

/-- A ring has filled the memory it was lent with items accepted since: each slot has the
latest item that it stands for, or else what was there when it was lent. -/
def Filled (lent : Memory α) (accepted : List α) (ring : Ring α) : Prop :=
  ∃ slots, ring.storage = .lent slots ∧ slots.cells.size = lent.cells.size ∧
    ∀ slot, slots.cells[slot]? =
      (latest? lent.cells.size slot accepted).or lent.cells[slot]?

theorem filled_rebind (ring : Ring α) (slots : Slots α) :
    Filled slots.toMemory [] (ring.rebind (.lent slots)) :=
  ⟨slots, rfl, rfl, fun _ => rfl⟩

theorem Filled.write {lent : Memory α} {accepted : List α} {ring next : Ring α}
    (hfilled : Filled lent accepted ring) {item : α}
    (hproducer : ring.producer.toNat % lent.cells.size = accepted.length % lent.cells.size)
    (hstorage : next.storage = ring.storage.write ring.producer item) :
    Filled lent (accepted ++ [item]) next := by
  obtain ⟨slots, hslots, hsize, hcells⟩ := hfilled
  refine ⟨slots.write ring.producer item, ?_, ?_, ?_⟩
  · rw [hstorage, hslots]
    rfl
  · rw [Slots.size_write, hsize]
  · intro slot
    have hwritten : (slots.slotOf ring.producer).toNat = accepted.length % lent.cells.size := by
      rw [Slots.toNat_slotOf, hsize, hproducer]
    rw [latest?_concat, ← hwritten]
    simp only [Slots.write, Array.getElem?_set]
    split
    · rfl
    · exact hcells slot

/-- The memory of a ring that was set up, at every moment after. -/
theorem Course.filled {fresh ring : Ring α} {slots : Slots α} {events : List (Event α)}
    (hcourse : Course (Change false) (fresh.rebind (.lent slots)) events ring) :
    Filled slots.toMemory (arrivals events) ring := by
  induction hcourse with
  | rest => exact filled_rebind fresh slots
  | @step events _ ring _ hbefore hchange ih =>
      rw [arrivals_append]
      cases hchange.writes with
      | nothing hstorage harrivals =>
          obtain ⟨held, hheld, hcells⟩ := ih
          rw [harrivals, List.append_nil]
          exact ⟨held, hstorage.trans hheld, hcells⟩
      | item item hstorage harrivals =>
          rw [harrivals]
          refine ih.write ?_ hstorage
          have hsince := hbefore.since (inRange_rebind fresh slots)
          have hcapacity : (fresh.rebind (.lent slots)).capacity.toNat = slots.cells.size :=
            toNat_capacity_of_slots rfl
          have hdvd : slots.cells.size ∣ (fresh.rebind (.lent slots)).lap.toNat := by
            rw [← hcapacity]
            exact Index.dvd_toNat_lap _
          rw [hsince.producer, Nat.mod_mod_of_dvd _ hdvd]
          congr 1
          exact Nat.zero_add _

end Ring

/-! ## Runs of calls -/

namespace Session

open SpscRing.Ring

variable {session : Session α} {store : Option Nat} {line : UInt32}

/-- After a ring was set up over a store, and as long as it is not set up again and nobody
else writes its indices: number the items accepted, by the answers of all calls in their
order. Each slot has the latest item whose number is the slot modulo the capacity, and what
the caller had left in the store as long as there is none. That holds after the run and of
every ring on its way there, and nothing changes a slot but an item that comes in. -/
theorem slots_hold_latest (hready : (session.lend store line).1.result = .ok ())
    (calls : List (Call α)) (hsteady : ∀ call ∈ calls, call.steady = true) :
    let start := (session.lend store line).2
    let run := start.performAll calls
    let journal := run.1.flatMap Step.allEvents
    let moved := Call.transfersAll calls (run.1.map Step.reply)
    ∃ memory, store.bind (session.returned[·]?) = some memory ∧
      Filled memory (moved.filterMap Transfer.accepted?) run.2.ring ∧
      Course (Change false) start.ring journal run.2.ring ∧
      (∀ events ring, Course (Change false) start.ring events ring →
        Filled memory (arrivals events) ring) ∧
      ∀ events ring later next, Course (Change false) start.ring events ring →
        Course (Change false) ring later next → arrivals later = [] →
          next.storage = ring.storage := by
  obtain ⟨slots, hmemory, hring⟩ := lend_ready hready
  have hmoved := (session.lend store line).2.transfers_performAll calls
  intro start run journal moved
  have hcourse : Course (Change false) start.ring journal run.2.ring :=
    start.course_of_steady hsteady
  have hpassed : ∀ events ring, Course (Change false) start.ring events ring →
      Filled slots.toMemory (arrivals events) ring := by
    intro events ring hpassed
    rw [show start.ring = session.ring.rebind (.lent slots) from hring] at hpassed
    exact hpassed.filled
  refine ⟨slots.toMemory, hmemory, ?_, hcourse, hpassed, ?_⟩
  · rw [show moved = transfers journal from hmoved.symm, accepted_transfers]
    exact hpassed journal run.2.ring hcourse
  · intro _ _ _ _ _ hlater harrivals
    exact hlater.storage_eq harrivals

theorem slots_hold_latest_small :
    (small.lend (some 0) 1).1.result = .ok () ∧ (∀ call ∈ smallCalls, call.steady = true) ∧
      let start := (small.lend (some 0) 1).2
      let run := start.performAll smallCalls
      ∃ memory, small.returned[0]? = some memory ∧
        Filled memory [1, 2, 3, 4] run.2.ring ∧
        Course (Change false) start.ring (run.1.flatMap Step.allEvents) run.2.ring ∧
        (∀ events ring, Course (Change false) start.ring events ring →
          Filled memory (arrivals events) ring) ∧
        ∀ events ring later next, Course (Change false) start.ring events ring →
          Course (Change false) ring later next → arrivals later = [] →
            next.storage = ring.storage :=
  have hready : (small.lend (some 0) 1).1.result = .ok () := rfl
  ⟨hready, by decide, slots_hold_latest hready smallCalls (by decide)⟩

end Session

end SpscRing
