import Mathlib.Data.List.DropRight
import Mathlib.Data.List.Nodup
import SpscRing.Proofs.Dropping
import SpscRing.Proofs.Inert
import SpscRing.Proofs.Placement
/-!
# Slots read and slots written

An item is written into a slot that has none of the items held, and an item is read from one that
has. Both are a matter of indices alone, which run modulo the lap and name slots modulo the
capacity. Over a run it follows that what is read was accepted since the ring was set up and has
not left it: never what its owner left in the memory, and never an item that is gone.
-/

namespace SpscRing

variable {α : Type}

theorem Slots.getElem?_write (slots : Slots α) (index : UInt64) (item : α) (slot : Nat) :
    (slots.write index item).cells[slot]? =
      if slot = index.toNat % slots.cells.size then some item else slots.cells[slot]? := by
  have hslot := slots.toNat_slotOf_lt index
  rw [← toNat_slotOf]
  simp only [write, Array.getElem?_set, eq_comm]

namespace Ring

/-! ## The slots of the items held -/

def heldSlots (ring : Ring α) : List Nat :=
  (List.range ring.occupancy.toNat).map fun place =>
    (ring.consumer.toNat + place) % ring.lap.toNat % ring.capacity.toNat

variable {ring : Ring α} {slots : Slots α}

section

variable (hslots : ring.storage = .lent slots) (hrange : ring.inRange = true)

include hslots hrange

theorem heldSlots_eq :
    ring.heldSlots = (List.range ring.span.toNat).map fun place =>
      (slots.slotOf (Index.shift ring.consumer ring.lap place)).toNat := by
  obtain ⟨hproducer, _, _⟩ := inRange_iff.mp hrange
  rw [heldSlots, occupancy_of_inRange hrange]
  apply List.map_congr_left
  intro place _
  rw [Slots.toNat_slotOf, Index.toNat_shift (Index.toNat_pos_of_lt hproducer),
    toNat_capacity_of_slots hslots]

theorem getElem?_contents (place : Nat) :
    ring.contents[place]? = ring.heldSlots[place]?.bind (slots.cells[·]?) := by
  rw [contents_of_inRange hslots hrange, heldSlots_eq hslots hrange, List.getElem?_map,
    List.getElem?_map]
  cases (List.range ring.span.toNat)[place]? with
  | none => rfl
  | some place =>
    have hslot := slots.toNat_slotOf_lt (Index.shift ring.consumer ring.lap place)
    exact (Array.getElem?_eq_getElem hslot).symm

end

/-- Going round the lap does not shift the slots. -/
theorem eq_of_getElem?_heldSlots {place slot : Nat} (hslot : ring.heldSlots[place]? = some slot) :
    place < ring.occupancy.toNat ∧
      slot = (ring.consumer.toNat + place) % ring.capacity.toNat := by
  rw [heldSlots, List.getElem?_map, Option.map_eq_some_iff] at hslot
  obtain ⟨_, hplace, rfl⟩ := hslot
  obtain ⟨hlt, rfl⟩ := List.getElem?_eq_some_iff.mp hplace
  rw [List.length_range] at hlt
  rw [List.getElem_range]
  exact ⟨hlt, Nat.mod_mod_of_dvd _ (Index.dvd_toNat_lap ring.capacity)⟩

/-- No two items held share a slot. -/
theorem nodup_heldSlots (hrange : ring.inRange = true) : ring.heldSlots.Nodup := by
  obtain ⟨slots, hslots⟩ := exists_slots_of_inRange hrange
  have hspan := span_lt_size hslots hrange
  have happart : ∀ near far, near < far → far < ring.span.toNat →
      (slots.slotOf (Index.shift ring.consumer ring.lap near)).toNat ≠
        (slots.slotOf (Index.shift ring.consumer ring.lap far)).toNat :=
    fun near far hlt hfar => by
      rw [ne_eq, UInt64.toNat_inj]
      exact slotOf_shift_ne hslots hlt (by omega)
  rw [heldSlots_eq hslots hrange]
  refine List.Nodup.map_on ?_ List.nodup_range
  intro near hnear far hfar hsame
  rw [List.mem_range] at hnear hfar
  rcases Nat.lt_trichotomy near far with hlt | heq | hlt
  · exact absurd hsame (happart near far hlt hfar)
  · exact heq
  · exact absurd hsame.symm (happart far near hlt hnear)

/-- The slot that the producer writes next has none of the items held. -/
theorem producer_notMem_heldSlots (hrange : ring.inRange = true) :
    ring.producer.toNat % ring.capacity.toNat ∉ ring.heldSlots := by
  obtain ⟨slots, hslots⟩ := exists_slots_of_inRange hrange
  rw [heldSlots_eq hslots hrange, toNat_capacity_of_slots hslots, ← Slots.toNat_slotOf]
  intro hmem
  obtain ⟨place, hplace, hsame⟩ := List.mem_map.mp hmem
  exact slotOf_shift_ne_producer hslots hrange (List.mem_range.mp hplace)
    (UInt64.toNat_inj.mp hsame)

/-! ## Writes -/

/-- An item is written into one slot, and that has none of the items held. -/
structure WritesFree (before : Ring α) (item : α) (after : Ring α) : Prop where
  slot_lt : before.producer.toNat % before.capacity.toNat < before.capacity.toNat
  free : before.producer.toNat % before.capacity.toNat ∉ before.heldSlots
  cells : ∃ slots written, before.storage = .lent slots ∧ after.storage = .lent written ∧
    ∀ slot, written.cells[slot]? =
      if slot = before.producer.toNat % before.capacity.toNat then some item
      else slots.cells[slot]?

theorem writesFree_accept (hrange : ring.inRange = true) (item : α) :
    WritesFree ring item (ring.accept item).ring := by
  obtain ⟨slots, hslots⟩ := exists_slots_of_inRange hrange
  refine ⟨Nat.mod_lt _ (capacity_pos_of_slots hslots), producer_notMem_heldSlots hrange, slots,
    slots.write ring.producer item, hslots, ?_, ?_⟩
  · show ring.storage.write ring.producer item = _
    rw [hslots]
    rfl
  · rw [toNat_capacity_of_slots hslots]
    exact slots.getElem?_write ring.producer item

theorem writesFree_offer (hrange : ring.inRange = true) {item : α} {mode : Bool}
    (hok : (ring.offer item mode).result = .ok ()) :
    ∃ before : Ring α,
      (ring.isFull = false ∧ before = ring ∨
        ring.isFull = true ∧ ∃ slots, ring.storage = .lent slots ∧ before = (ring.evict slots).1) ∧
      (ring.offer item mode).ring = (before.accept item).ring ∧
      WritesFree before item (ring.offer item mode).ring := by
  have hend := ring.offered item mode
  generalize ring.offer item mode = outcome at hend hok ⊢
  cases hend with
  | inert | corrupted | full => cases hok
  | @replaced slots hslots _ hfull _ hmany =>
      have hreleased := (contents_release hrange (by omega : 0 < ring.span.toNat)).1
      refine ⟨ring.release, .inr ⟨(isFull_iff hslots hrange).mpr hfull, slots, hslots, ?_⟩, rfl,
        writesFree_accept hreleased item⟩
      rw [evict_eq_release]
  | accepted hslots _ hroom =>
      rw [← toNat_capacity_of_slots hslots, ← isFull_eq_false_iff hrange] at hroom
      exact ⟨ring, .inl ⟨hroom, rfl⟩, rfl, writesFree_accept hrange item⟩

end Ring

/-! ## Reads -/

inductive SlotRead where
  | take
  | peek (offset : UInt64)

namespace SlotRead

open SpscRing.Ring

def read : SlotRead → Ring α → Except Fault α
  | take, ring => ring.take.result
  | peek offset, ring => ring.itemAt offset

def place : SlotRead → Nat
  | take => 0
  | peek offset => offset.toNat

variable {ring : Ring α}

theorem read_eq_ok_iff (hrange : ring.inRange = true) (access : SlotRead) (item : α) :
    access.read ring = .ok item ↔ ring.contents[access.place]? = some item := by
  cases access with
  | peek offset =>
      rw [read, itemAt_of_inRange hrange, place]
      cases ring.contents[offset.toNat]? with
      | none | some => simp
  | take =>
      have hend := ring.taken
      rw [read, place]
      generalize ring.take = outcome at hend ⊢
      cases hend with
      | inert hnone => exact absurd hnone (slots?_of_inRange hrange _)
      | corrupted _ hbad => simp [hrange] at hbad
      | empty _ _ hnone =>
          have hempty : ring.contents = [] := by
            rw [← List.length_eq_zero_iff, length_contents_of_inRange hrange, hnone]
          simp [hempty, Outcome.fail]
      | delivered hheld _ hsome =>
          rw [← List.head?_eq_getElem?, head?_contents hheld hrange hsome]
          simp

theorem inRange_of_ok {access : SlotRead} {item : α} (hok : access.read ring = .ok item) :
    ring.inRange = true := by
  cases access with
  | peek offset =>
      rw [read, itemAt] at hok
      split at hok
      · cases hok
      · cases hrange : ring.inRange with
        | true => rfl
        | false => simp [hrange] at hok
  | take =>
      have hend := ring.taken
      rw [read] at hok
      generalize ring.take = outcome at hend hok
      cases hend with
      | inert | corrupted | empty => cases hok
      | delivered _ hrange => exact hrange

/-- A read reads a slot: whatever is in the memory, it gives what is in that slot. -/
def Reads (access : SlotRead) (ring : Ring α) (slot : Nat) : Prop :=
  ∀ slots : Slots α, slots.cells.size = ring.capacity.toNat →
    ∃ item, slots.cells[slot]? = some item ∧
      access.read { ring with storage := .lent slots } = .ok item

theorem reads_of_ok (hrange : ring.inRange = true) {access : SlotRead} {item : α}
    (hok : access.read ring = .ok item) :
    ∃ slot, ring.heldSlots[access.place]? = some slot ∧ access.Reads ring slot := by
  rw [read_eq_ok_iff hrange] at hok
  obtain ⟨held, hheld⟩ := exists_slots_of_inRange hrange
  rw [getElem?_contents hheld hrange, Option.bind_eq_some_iff] at hok
  obtain ⟨slot, hslot, hread⟩ := hok
  have hlt : slot < held.cells.size := (Array.getElem?_eq_some_iff.mp hread).1
  refine ⟨slot, hslot, fun slots hsize => ?_⟩
  -- The indices are trusted, and name the slots, in any memory of that size.
  have hcapacity : ({ ring with storage := .lent slots } : Ring α).capacity = ring.capacity := by
    rw [← UInt64.toNat_inj, toNat_capacity_of_slots rfl, hsize]
  have hother : ({ ring with storage := .lent slots } : Ring α).inRange = true := by
    rw [inRange, lap, hcapacity]
    exact hrange
  have hsame : ({ ring with storage := .lent slots } : Ring α).heldSlots = ring.heldSlots := by
    simp only [heldSlots, occupancy_eq_ite, hother, hrange, span, lap, hcapacity]
  rw [← toNat_capacity_of_slots hheld, ← hsize] at hlt
  refine ⟨slots.cells[slot], Array.getElem?_eq_getElem hlt, ?_⟩
  rw [read_eq_ok_iff hother, getElem?_contents rfl hother, hsame, hslot]
  exact Array.getElem?_eq_getElem hlt

end SlotRead

/-! ## Runs -/

def Event.isSetUp : Event α → Bool
  | bound _ | boundToNothing | boundToNoCells => true
  | _ => false

def sinceSetUp (events : List (Event α)) : List (Event α) := events.rtakeWhile (!·.isSetUp)

theorem sinceSetUp_append {events later : List (Event α)}
    (hlater : ∀ event ∈ later, event.isSetUp = false) :
    sinceSetUp (events ++ later) = sinceSetUp events ++ later := by
  have hreversed : ∀ event ∈ later.reverse, (!event.isSetUp) = true := fun event hevent => by
    rw [hlater event (List.mem_reverse.mp hevent)]
    rfl
  rw [sinceSetUp, List.rtakeWhile, List.reverse_append, List.takeWhile_append_of_pos hreversed,
    List.reverse_append, List.reverse_reverse]
  rfl

namespace Ring

/-- One thing that calls do to a ring whose indices nobody else writes. It may be set up afresh. -/
inductive Act : Ring α → List (Event α) → Ring α → Prop where
  | change {ring next : Ring α} {events : List (Event α)}
      (hchange : Change false ring events next) : Act ring events next
  | setUp (ring : Ring α) (storage : Storage α) (line : UInt32) :
      Act ring (ring.setUp storage line).events (ring.setUp storage line).ring

variable {ring next start : Ring α} {events later : List (Event α)}

theorem Move.isSetUp_eq (hmove : Move false ring events next) :
    ∀ event ∈ events, event.isSetUp = false := by
  intro event hevent
  have hmoved := hmove.isControl_eq event hevent
  cases event with
  | bound | boundToNothing | boundToNoCells => cases hmoved
  | _ => rfl

theorem Change.isSetUp_eq (hchange : Change false ring events next) :
    ∀ event ∈ events, event.isSetUp = false := by
  cases hchange with
  | move hmove => exact hmove.isSetUp_eq
  | setUp hstray => cases hstray
  | setPacing _ pacing line =>
      have hend := ring.paced pacing line
      generalize ring.setPacing pacing line = outcome at hend ⊢
      cases hend with
      | installed | refused => exact List.forall_mem_singleton.mpr rfl
  | setOverwrite | resetCounters | clearFailure => exact List.forall_mem_singleton.mpr rfl

/-- Only setting a ring up puts dead indices in order, or orderly ones out of it. -/
theorem Change.inRange_eq (hchange : Change false ring events next) :
    next.inRange = ring.inRange := by
  cases hrange : ring.inRange with
  | true => exact (hchange.since hrange).inRange
  | false => rw [(hchange.frozen (dead_iff.mpr hrange)).inRange_eq, hrange]

/-- A ring that was set up over slots some events ago, and not since. -/
def SetUp (events : List (Event α)) (ring : Ring α) : Prop :=
  ∃ (fresh : Ring α) (slots : Slots α),
    Course (Change false) (fresh.rebind (.lent slots)) (sinceSetUp events) ring

/-- At every moment of a run a ring in order goes on from where it was last set up. -/
theorem Course.setUp (hcourse : Course Act start events ring) (hstart : SetUp [] start)
    (hrange : ring.inRange = true) : SetUp events ring := by
  induction hcourse with
  | rest => exact hstart
  | @step events later ring next _ hact ih =>
      cases hact with
      | change hchange =>
          rw [hchange.inRange_eq] at hrange
          obtain ⟨fresh, slots, hearlier⟩ := ih hrange
          refine ⟨fresh, slots, ?_⟩
          rw [sinceSetUp_append hchange.isSetUp_eq]
          exact hearlier.step hchange
      | setUp storage line =>
          cases storage with
          | absent | noCells =>
              obtain ⟨slots, hslots⟩ := exists_slots_of_inRange hrange
              cases hslots
          | lent slots =>
              refine ⟨ring, slots, ?_⟩
              have hnone : sinceSetUp (events ++ (ring.setUp (.lent slots) line).events) = [] :=
                List.rtakeWhile_concat_neg _ _ _ Bool.false_ne_true
              rw [hnone]
              exact .rest

/-! ## What is read -/

/-- A slot has an item that is still held: it has a number among the items accepted since the
ring was set up, fewer than that have left, and no later one was written into its slot. -/
def HasHeld (size : Nat) (events : List (Event α)) (slot : Nat) (item : α) : Prop :=
  ∃ number, number % size = slot ∧ (arrivals events)[number]? = some item ∧
    (departures events).length ≤ number ∧
    ∀ later, number < later → later < (arrivals events).length → later % size ≠ slot

theorem Since.hasHeld {fresh : Ring α} {slots : Slots α}
    (hsince : Since (fresh.rebind (.lent slots)) events ring) {place slot : Nat} {item : α}
    (hslot : ring.heldSlots[place]? = some slot) (hitem : ring.contents[place]? = some item) :
    HasHeld ring.capacity.toNat events slot item := by
  have hrepresents := hsince.represents
  have hitems := hsince.items
  rw [contents_rebind, List.nil_append] at hitems
  obtain ⟨hplace, rfl⟩ := eq_of_getElem?_heldSlots hslot
  have hdvd : ring.capacity.toNat ∣ ring.lap.toNat := Index.dvd_toNat_lap ring.capacity
  have hnumber : ((departures events).length + place) % ring.capacity.toNat =
      (ring.consumer.toNat + place) % ring.capacity.toNat := by
    rw [hrepresents.consumer, Nat.add_mod (_ % _), Nat.mod_mod_of_dvd _ hdvd, ← Nat.add_mod]
  refine ⟨(departures events).length + place, hnumber, ?_, Nat.le_add_right _ _, ?_⟩
  · rw [hitems, List.getElem?_append_right (by simp), List.length_map, Nat.add_sub_cancel_left]
    exact hitem
  · intro later hlater hlast hsame
    -- Fewer items are held than there are slots, so no two of them are a capacity apart.
    have happart : ring.capacity.toNat ∣ later - ((departures events).length + place) :=
      Nat.dvd_of_mod_eq_zero (Nat.sub_mod_eq_zero_of_mod_eq (hsame.trans hnumber.symm))
    have hle := Nat.le_of_dvd (by omega) happart
    have hheld := hrepresents.held_lt
    have hcapacity := hrepresents.capacity
    omega

/-- Memory changes only when an item comes in: that is written into the slot of its number. -/
def WritesByNumber (events later : List (Event α)) (ring next : Ring α) : Prop :=
  arrivals later = [] ∧ next.storage = ring.storage ∨
    ∃ item slots written, arrivals later = [item] ∧ ring.storage = .lent slots ∧
      next.storage = .lent written ∧
      ∀ slot, written.cells[slot]? =
        if slot = (arrivals events).length % ring.capacity.toNat then some item
        else slots.cells[slot]?

theorem Since.writesByNumber {fresh : Ring α} {slots : Slots α}
    (hsince : Since (fresh.rebind (.lent slots)) events ring)
    (hchange : Change false ring later next) : WritesByNumber events later ring next := by
  obtain ⟨held, hheld⟩ := exists_slots_of_inRange hsince.inRange
  have hdvd : ring.capacity.toNat ∣ ring.lap.toNat := Index.dvd_toNat_lap ring.capacity
  cases hchange.writes with
  | nothing hstorage harrivals => exact .inl ⟨harrivals, hstorage⟩
  | item item hstorage harrivals =>
      refine .inr ⟨item, held, held.write ring.producer item, harrivals, hheld, ?_, ?_⟩
      · rw [hstorage, hheld]
        rfl
      · rw [← Nat.mod_mod_of_dvd _ hdvd, ← hsince.represents.producer,
          toNat_capacity_of_slots hheld]
        exact held.getElem?_write ring.producer item

end Ring

namespace SlotRead

open SpscRing.Ring

/-- In a ring that was set up, a read that succeeds gives an item that is still held. -/
theorem hasHeld_of_ok {ring : Ring α} {events : List (Event α)} (hsetUp : SetUp events ring)
    {access : SlotRead} {item : α} (hok : access.read ring = .ok item) :
    ∃ slot ∈ ring.heldSlots, access.Reads ring slot ∧
      HasHeld ring.capacity.toNat (sinceSetUp events) slot item := by
  obtain ⟨fresh, slots, hcourse⟩ := hsetUp
  have hsince := hcourse.since (inRange_rebind fresh slots)
  obtain ⟨slot, hslot, hreads⟩ := reads_of_ok hsince.inRange hok
  rw [read_eq_ok_iff hsince.inRange] at hok
  exact ⟨slot, List.mem_of_getElem? hslot, hreads, hsince.hasHeld hslot hok⟩

end SlotRead

def Call.unforced : Call α → Bool
  | .setUp _ _ => true
  | call => call.steady

namespace Session

open SpscRing.Ring

theorem acts_perform (session : Session α) {call : Call α} (hcall : call.unforced = true) :
    let step := (session.perform call).1
    Course Act session.ring step.allEvents (session.perform call).2.ring := by
  have hsteady : call.steady = true →
      Course Act session.ring (session.perform call).1.allEvents (session.perform call).2.ring :=
    fun hsteady => Course.mono (session.course_perform call (.inr hsteady)) fun _ _ _ => .change
  cases call with
  | setUp store line => exact .single (.setUp session.ring _ line)
  | shared | setPacing | setOverwrite | resetCounters | clearFailure | split => exact hsteady hcall

theorem acts_performAll (session : Session α) {calls : List (Call α)}
    (hcalls : ∀ call ∈ calls, call.unforced = true) :
    let run := session.performAll calls
    Course Act session.ring (run.1.flatMap Step.allEvents) run.2.ring :=
  course_of_perform (fun call hcall session => session.acts_perform (hcalls call hcall)) session

theorem setUp_lend {session : Session α} {store : Option Nat} {line : UInt32}
    (hready : (session.lend store line).1.result = .ok ()) :
    SetUp [] (session.lend store line).2.ring := by
  obtain ⟨slots, _, hring⟩ := lend_ready hready
  refine ⟨session.ring, slots, ?_⟩
  rw [hring]
  exact .rest

/-- Wherever the indices of a ring in order stand, its items lie in slots of their own; an insert
that gets as far as writing writes into one slot, which has none of the items held at that
moment, with the oldest one dropped if there was no room; and a read that succeeds reads a slot
that has one of them. In a run from a ring that was set up, in which it may be set up again and
nobody else writes its indices, what is read was accepted since it was last set up and is still
held: items are numbered as they are accepted, each is written into the slot of its number modulo
the capacity and nothing else is, and no item that came later went into the slot. -/
theorem slot_accesses_sound :
    (∀ ring : Ring α, ring.inRange = true →
      ring.heldSlots.Nodup ∧
        (∀ item mode, (ring.offer item mode).result = .ok () →
          ∃ before : Ring α,
            (ring.isFull = false ∧ before = ring ∨
              ring.isFull = true ∧
                ∃ slots, ring.storage = .lent slots ∧ before = (ring.evict slots).1) ∧
            (ring.offer item mode).ring = (before.accept item).ring ∧
            WritesFree before item (ring.offer item mode).ring) ∧
        ∀ (access : SlotRead) item, access.read ring = .ok item →
          ∃ slot ∈ ring.heldSlots, access.Reads ring slot) ∧
      ∀ (session : Session α) store line, (session.lend store line).1.result = .ok () →
        ∀ calls : List (Call α), (∀ call ∈ calls, call.unforced = true) →
          let start := (session.lend store line).2
          let run := start.performAll calls
          Course Act start.ring (run.1.flatMap Step.allEvents) run.2.ring ∧
            ∀ events ring, Course Act start.ring events ring →
              (ring.inRange = true → ∀ later next, Change false ring later next →
                WritesByNumber (sinceSetUp events) later ring next) ∧
              ∀ (access : SlotRead) item, access.read ring = .ok item →
                ∃ slot ∈ ring.heldSlots, access.Reads ring slot ∧
                  HasHeld ring.capacity.toNat (sinceSetUp events) slot item := by
  constructor
  · intro ring hrange
    refine ⟨nodup_heldSlots hrange, fun item mode => writesFree_offer hrange, ?_⟩
    intro access item hok
    obtain ⟨slot, hslot, hreads⟩ := SlotRead.reads_of_ok hrange hok
    exact ⟨slot, List.mem_of_getElem? hslot, hreads⟩
  · intro session store line hready calls hcalls start run
    refine ⟨start.acts_performAll hcalls, ?_⟩
    intro events ring hcourse
    have hsetUp : ring.inRange = true → SetUp events ring := hcourse.setUp (setUp_lend hready)
    constructor
    · intro hrange later next hchange
      obtain ⟨fresh, slots, hsince⟩ := hsetUp hrange
      exact (hsince.since (inRange_rebind fresh slots)).writesByNumber hchange
    · intro access item hok
      exact SlotRead.hasHeld_of_ok (hsetUp (SlotRead.inRange_of_ok hok)) hok

theorem slot_accesses_sound_small :
    let calls := smallCalls ++ [.setUp (some 0) 2, .shared (.insert 5 1)]
    let run := (small.lend (some 0) 1).2.performAll calls
    astride.ring.inRange = true ∧ astride.ring.heldSlots = [2, 0] ∧
      astride.ring.heldSlots.Nodup ∧ (astride.ring.offer 30 true).result = .ok () ∧
      (∃ before, WritesFree before 30 (astride.ring.offer 30 true).ring) ∧
      (SlotRead.peek 1).read astride.ring = .ok 20 ∧
      (∃ slot ∈ [2, 0], (SlotRead.peek 1).Reads astride.ring slot) ∧
      (small.lend (some 0) 1).1.result = .ok () ∧ (∀ call ∈ calls, call.unforced = true) ∧
      SlotRead.take.read run.2.ring = .ok 5 ∧
      ∃ slot ∈ [0], SlotRead.take.Reads run.2.ring slot ∧
        HasHeld 3 (sinceSetUp (run.1.flatMap Step.allEvents)) slot 5 := by
  intro calls run
  have hready : (small.lend (some 0) 1).1.result = .ok () := rfl
  have hcalls : ∀ call ∈ calls, call.unforced = true := by decide
  have hwritten : (astride.ring.offer 30 true).result = .ok () := rfl
  have hpeek : (SlotRead.peek 1).read astride.ring = .ok 20 := rfl
  have htake : SlotRead.take.read run.2.ring = .ok 5 := by decide
  obtain ⟨hapart, hwrites, hreads⟩ := slot_accesses_sound.1 astride.ring rfl
  obtain ⟨hcourse, hmoments⟩ := slot_accesses_sound.2 small (some 0) 1 hready calls hcalls
  obtain ⟨before, -, -, hfree⟩ := hwrites 30 true hwritten
  have hslots : run.2.ring.heldSlots = [0] := by decide
  have hcapacity : run.2.ring.capacity.toNat = 3 := by decide
  have hheld := (hmoments _ run.2.ring hcourse).2 .take 5 htake
  rw [hslots, hcapacity] at hheld
  exact ⟨rfl, rfl, hapart, hwritten, ⟨before, hfree⟩, hpeek, hreads (.peek 1) 20 hpeek, hready,
    hcalls, htake, hheld⟩

end Session

end SpscRing
