import Mathlib.Data.Nat.ModEq
import Mathlib.Logic.Function.Iterate
import SpscRing.Proofs.Singles
import SpscRing.Proofs.SlotAccess
/-!
# Indices modulo the lap, slots modulo the capacity

An index goes on by one item at a time, modulo the lap, and names a slot modulo the capacity. As
the capacity divides the lap, the slots see nothing of an index that goes round: they follow one
another as if there were no lap. So two ways to find a slot agree that look different. A remove
takes the slot of the consumer's index, and a peek goes on from that slot, without going on from
the index.
-/

namespace SpscRing

namespace Index

variable {index producer consumer lap : UInt64}

theorem iterate_next (hindex : index < lap) (places : Nat) :
    (next · lap)^[places] index = shift index lap places := by
  induction places generalizing index with
  | zero => exact (shift_zero hindex).symm
  | succ places ih => rw [Function.iterate_succ_apply, ih (next_lt hindex), shift_next hindex]

theorem toNat_iterate_next (hindex : index < lap) (places : Nat) :
    ((next · lap)^[places] index).toNat = (index.toNat + places) % lap.toNat := by
  rw [iterate_next hindex]
  exact toNat_shift (toNat_pos_of_lt hindex) places

theorem iterate_next_lt (hindex : index < lap) (places : Nat) :
    (next · lap)^[places] index < lap := by
  rw [UInt64.lt_iff_toNat_lt, toNat_iterate_next hindex]
  exact Nat.mod_lt _ (toNat_pos_of_lt hindex)

/-- The slots follow one another modulo the capacity, round the lap as well. -/
theorem toNat_iterate_next_mod {capacity : UInt64} (hcapacity : 0 < capacity.toNat)
    (hindex : index < Index.lap capacity) (places : Nat) :
    ((next · (Index.lap capacity))^[places] index).toNat % capacity.toNat =
      (index.toNat % capacity.toNat + places) % capacity.toNat := by
  rw [iterate_next hindex, toNat_shift_mod hcapacity, Nat.mod_add_mod]

/-- The span is the one distance on the lap that leads from the consumer's index to the
producer's. -/
theorem toNat_span_eq_iff (hproducer : producer < lap) (hconsumer : consumer < lap)
    (places : Nat) :
    (span producer consumer lap).toNat = places ↔
      places < lap.toNat ∧ producer.toNat = (consumer.toNat + places) % lap.toNat := by
  have hspan := toNat_span_lt hproducer hconsumer
  have hleads := add_span_mod hproducer hconsumer
  constructor
  · rintro rfl
    exact ⟨hspan, hleads.symm⟩
  · rintro ⟨hplaces, harrives⟩
    -- Two numbers below the lap that lead to one place are congruent, and so equal.
    have hsame : consumer.toNat + (span producer consumer lap).toNat ≡
        consumer.toNat + places [MOD lap.toNat] := hleads.trans harrives
    exact (Nat.ModEq.add_left_cancel' _ hsame).eq_of_lt_of_lt hspan hplaces

theorem toNat_span_iterate_next (hconsumer : consumer < lap) {places : Nat}
    (hplaces : places < lap.toNat) :
    (span ((next · lap)^[places] consumer) consumer lap).toNat = places :=
  (toNat_span_eq_iff (iterate_next_lt hconsumer places) hconsumer places).mpr
    ⟨hplaces, toNat_iterate_next hconsumer places⟩

end Index

namespace Exact

def advance (lap : UInt64) : Nat → UInt64 → Option UInt64
  | 0, index => some index
  | places + 1, index => do
    let later ← next index lap
    advance lap places later

theorem advance_eq {index lap : UInt64} (hindex : index < lap) (places : Nat) :
    advance lap places index = some ((Index.next · lap)^[places] index) := by
  induction places generalizing index with
  | zero => rfl
  | succ places ih =>
      rw [advance, bind_eq (next_eq hindex), Function.iterate_succ_apply]
      exact ih (Index.next_lt hindex)

end Exact

namespace Ring

variable {α : Type} {ring : Ring α} {slots : Slots α}

/-! ## Removes in a row -/

/-- Removes, each called from a line of its own, one after another until one fails. -/
def removes (lines : List UInt32) (ring : Ring α) : Outcome α (List α × Option Fault) :=
  oneByOne (lines.map fun line ring => ring.remove line) ring

theorem removes_of_none {lines : List UInt32} (hnone : (ring.removes lines).result.2 = none) :
    (ring.removes lines).ring.storage = ring.storage ∧
      (ring.removes lines).ring.consumer =
        (Index.next · ring.lap)^[lines.length] ring.consumer := by
  induction lines generalizing ring with
  | nil => exact ⟨rfl, rfl⟩
  | cons line later ih =>
      have hend := ring.taken
      rw [removes, List.map_cons, oneByOne, remove] at hnone ⊢
      generalize ring.take = outcome at hend hnone ⊢
      cases hend with
      | inert | corrupted | empty => cases hnone
      | delivered =>
          -- The removes that follow start from the ring that this one left, on the same lap.
          have hlap : (ring.release.count .countRemove).lap = ring.lap := lap_release ring
          have hmoved : (ring.release.count .countRemove).consumer =
              Index.next ring.consumer ring.lap := consumer_release ring
          have hlater : ((ring.release.count .countRemove).removes later).result.2 = none := hnone
          obtain ⟨hstorage, hconsumer⟩ := ih hlater
          rw [hlap, hmoved] at hconsumer
          exact ⟨hstorage.trans (storage_release ring), hconsumer⟩

theorem removes_of_held {lines : List UInt32} (hrange : ring.inRange = true)
    (hheld : lines.length ≤ ring.contents.length) :
    (ring.removes lines).result.2 = none ∧ (ring.removes lines).ring.inRange = true ∧
      (ring.removes lines).ring.contents = ring.contents.drop lines.length := by
  induction lines generalizing ring with
  | nil => exact ⟨rfl, hrange, rfl⟩
  | cons line later ih =>
      obtain ⟨slots, hslots⟩ := exists_slots_of_inRange hrange
      have hlength := length_contents_of_inRange hrange
      rw [List.length_cons] at hheld
      have hsome : 0 < ring.span.toNat := by omega
      obtain ⟨hafter, hcontents⟩ : (ring.release.count .countRemove).inRange = true ∧
          (ring.release.count .countRemove).contents = ring.contents.tail :=
        contents_release hrange hsome
      have hfewer : later.length ≤ (ring.release.count .countRemove).contents.length := by
        rw [hcontents, List.length_tail]
        omega
      obtain ⟨hnone, hfinal, hrest⟩ := ih hafter hfewer
      rw [hcontents, List.drop_tail] at hrest
      rw [removes, List.map_cons, oneByOne, remove, take_of_some hslots hrange hsome]
      exact ⟨hnone, hfinal, hrest⟩

end Ring

namespace SlotRead

open SpscRing.Ring

/-- As far as items are held, a read reads the slot that lies so many places behind the oldest
one's. -/
theorem reads_of_held {α : Type} {ring : Ring α} (hrange : ring.inRange = true) {access : SlotRead}
    (hheld : access.place < ring.contents.length) :
    access.Reads ring ((ring.consumer.toNat + access.place) % ring.capacity.toNat) := by
  have hitem := (read_eq_ok_iff hrange access _).mpr (List.getElem?_eq_getElem hheld)
  obtain ⟨slot, hslot, hreads⟩ := reads_of_ok hrange hitem
  obtain ⟨-, rfl⟩ := eq_of_getElem?_heldSlots hslot
  exact hreads

end SlotRead

namespace Ring

variable {α : Type} {ring : Ring α} {slots : Slots α}

/-- After as many removes as there are items in front, the next one reads the slot that a peek
reads now. -/
theorem reads_after_removes (hslots : ring.storage = .lent slots) (hrange : ring.inRange = true)
    {lines : List UInt32} (hheld : lines.length < ring.contents.length) :
    SlotRead.take.Reads (ring.removes lines).ring
      (slots.slotOf ((Index.next · ring.lap)^[lines.length] ring.consumer)).toNat := by
  obtain ⟨hnone, hafter, hcontents⟩ := removes_of_held hrange (Nat.le_of_lt hheld)
  obtain ⟨hstorage, hmoved⟩ := removes_of_none hnone
  have hmore : SlotRead.take.place < (ring.removes lines).ring.contents.length := by
    rw [hcontents, List.length_drop, SlotRead.place]
    omega
  have hreads := SlotRead.reads_of_held hafter hmore
  rw [toNat_capacity_of_slots (hstorage.trans hslots), hmoved] at hreads
  rwa [Slots.toNat_slotOf]

section

variable (hslots : ring.storage = .lent slots) (hconsumer : ring.consumer < ring.lap)
  {offset : UInt64}

include hslots hconsumer

theorem toNat_slotOf_iterate_next (places : Nat) :
    (slots.slotOf ((Index.next · ring.lap)^[places] ring.consumer)).toNat =
      (ring.consumer.toNat % slots.cells.size + places) % slots.cells.size := by
  rw [Slots.toNat_slotOf, ← toNat_capacity_of_slots hslots]
  exact Index.toNat_iterate_next_mod (capacity_pos_of_slots hslots) hconsumer places

/-- The slot that a peek computes, behind the slot of the oldest item, is the one of the index
as many items on. -/
theorem peeked_slot (hoffset : offset.toNat < slots.cells.size) :
    (do
      let first ← Exact.slotOf slots ring.consumer
      let place ← Exact.add first offset
      Exact.slotOf slots place) =
      some (slots.slotOf ((Index.next · ring.lap)^[offset.toNat] ring.consumer)) := by
  rw [Exact.bind_eq (Exact.slotOf_eq slots ring.consumer),
    Exact.bind_eq (Exact.slotOf_add_eq slots ring.consumer hoffset), Exact.slotOf_eq,
    slotOf_slotOf_add hslots hoffset, Index.iterate_next hconsumer]

end

/-- The lap of every capacity is a multiple of it that leaves out less than a capacity of the words
there are. From an index on the lap, going on by one item at a time adds up modulo the lap, and the
slots passed follow one another modulo the capacity; the span tells how many items an index has
gone on from another, and is the one number below the lap that leads from the one to the other.
Nothing overflows on the way.

So on every ring with its consumer's index on the lap, the slot that a peek computes from the slot
of the oldest item is the one that the index stands for after as many removes, if they succeed,
whether or not they take it round the lap. They succeed as far as items are held, and short of that
it is the slot that the peek reads now, and that the next remove reads then. -/
theorem laps_keep_slots {α : Type} :
    (∀ capacity : UInt64, 0 < capacity.toNat →
      let lap := Index.lap capacity
      (Exact.lap capacity = some lap ∧ 0 < lap.toNat ∧ capacity.toNat ∣ lap.toNat ∧
          lap.toNat ≤ Index.wordMax.toNat ∧
          Index.wordMax.toNat - lap.toNat < capacity.toNat) ∧
        (∀ index, index < lap → ∀ places,
          let later := (Index.next · lap)^[places] index
          Exact.advance lap places index = some later ∧
            later.toNat = (index.toNat + places) % lap.toNat ∧
            later.toNat % capacity.toNat =
              (index.toNat % capacity.toNat + places) % capacity.toNat) ∧
        (∀ consumer, consumer < lap → ∀ places, places < lap.toNat →
          (Index.span ((Index.next · lap)^[places] consumer) consumer lap).toNat = places) ∧
        ∀ producer consumer, producer < lap → consumer < lap →
          let span := Index.span producer consumer lap
          Exact.span producer consumer lap = some span ∧
            ∀ places, span.toNat = places ↔
              places < lap.toNat ∧ producer.toNat = (consumer.toNat + places) % lap.toNat) ∧
      ∀ (ring : Ring α) (slots : Slots α), ring.storage = .lent slots → ring.consumer < ring.lap →
        ∀ offset : UInt64, offset.toNat < slots.cells.size →
          let slot := slots.slotOf ((Index.next · ring.lap)^[offset.toNat] ring.consumer)
          (do
            let first ← Exact.slotOf slots ring.consumer
            let place ← Exact.add first offset
            Exact.slotOf slots place) = some slot ∧
          slot.toNat =
            (ring.consumer.toNat % slots.cells.size + offset.toNat) % slots.cells.size ∧
          ∀ lines, lines.length = offset.toNat →
            let removed := ring.removes lines
            (removed.result.2 = none →
              removed.ring.storage = .lent slots ∧
                slots.slotOf removed.ring.consumer = slot) ∧
            (ring.inRange = true → offset.toNat ≤ ring.occupancy.toNat →
              removed.result.2 = none) ∧
            (ring.inRange = true → offset.toNat < ring.occupancy.toNat →
              (SlotRead.peek offset).Reads ring slot.toNat ∧
                SlotRead.take.Reads removed.ring slot.toNat) := by
  constructor
  · intro capacity hcapacity lap
    have hnext : Index.wordMax.toNat < lap.toNat + capacity.toNat :=
      Index.lt_toNat_lap_add hcapacity
    have hmost : lap.toNat ≤ Index.wordMax.toNat := Nat.le_of_lt_succ lap.toNat_lt
    have hpos : 0 < lap.toNat := Nat.lt_of_lt_of_le hcapacity (Index.le_toNat_lap hcapacity)
    refine ⟨⟨Exact.lap_eq capacity, hpos, Index.dvd_toNat_lap capacity, hmost, by omega⟩,
      ?_, ?_, ?_⟩
    · intro index hindex places
      exact ⟨Exact.advance_eq hindex places, Index.toNat_iterate_next hindex places,
        Index.toNat_iterate_next_mod hcapacity hindex places⟩
    · intro consumer hconsumer places hplaces
      exact Index.toNat_span_iterate_next hconsumer hplaces
    · intro producer consumer hproducer hconsumer span
      exact ⟨Exact.span_eq hproducer hconsumer, Index.toNat_span_eq_iff hproducer hconsumer⟩
  · intro ring slots hslots hconsumer offset hoffset slot
    have hslot := toNat_slotOf_iterate_next hslots hconsumer offset.toNat
    refine ⟨peeked_slot hslots hconsumer hoffset, hslot, ?_⟩
    intro lines hlines removed
    rw [← length_contents, ← hlines]
    refine ⟨?_, ?_, ?_⟩
    · intro hnone
      obtain ⟨hstorage, hmoved⟩ := removes_of_none hnone
      rw [hlines] at hmoved
      exact ⟨hstorage.trans hslots, congrArg slots.slotOf hmoved⟩
    · intro hrange hheld
      exact (removes_of_held hrange hheld).1
    · intro hrange hheld
      have htake := reads_after_removes hslots hrange hheld
      rw [hlines] at hheld htake
      have hpeek : (SlotRead.peek offset).Reads ring _ := SlotRead.reads_of_held hrange hheld
      rw [toNat_capacity_of_slots hslots, SlotRead.place, ← Nat.mod_add_mod, ← hslot] at hpeek
      exact ⟨hpeek, htake⟩

/-- Three slots with two items: the first remove takes the index round the lap. -/
theorem laps_keep_slots_astride :
    let ring := Session.astride.ring
    let lap := Index.lap 3
    let later := (Index.next · lap)^[2] ring.consumer
    let removed := ring.removes [7]
    0 < (3 : UInt64).toNat ∧ Exact.lap 3 = some lap ∧ Index.wordMax.toNat - lap.toNat < 3 ∧
      ring.consumer < lap ∧ Exact.advance lap 2 ring.consumer = some later ∧
      later.toNat % 3 = (ring.consumer.toNat % 3 + 2) % 3 ∧
      2 < lap.toNat ∧ (Index.span later ring.consumer lap).toNat = 2 ∧
      ring.producer < lap ∧
      Exact.span ring.producer ring.consumer lap =
        some (Index.span ring.producer ring.consumer lap) ∧
      (∃ slots, ring.storage = .lent slots) ∧ ring.consumer < ring.lap ∧ [7].length = 1 ∧
      ring.inRange = true ∧ 1 < ring.occupancy.toNat ∧ removed.result.2 = none ∧
      removed.ring.storage = ring.storage ∧ removed.ring.consumer = 0 ∧
      (SlotRead.peek 1).Reads ring 0 ∧ SlotRead.take.Reads removed.ring 0 := by
  intro ring lap later removed
  have hcapacity : 0 < (3 : UInt64).toNat := by decide
  have hconsumer : ring.consumer < lap := by decide
  have hproducer : ring.producer < lap := by decide
  have hplaces : 2 < lap.toNat := by decide
  have hslots : ring.storage = .lent _ := rfl
  have hlap : ring.consumer < ring.lap := by decide
  have hrange : ring.inRange = true := by decide
  have hheld : 1 < ring.occupancy.toNat := by decide
  obtain ⟨hlaps, hrings⟩ := laps_keep_slots (α := Nat)
  obtain ⟨⟨hexact, _, _, _, hrest⟩, hadvance, hspan, hspans⟩ := hlaps 3 hcapacity
  obtain ⟨hadvanced, _, hslot⟩ := hadvance ring.consumer hconsumer 2
  obtain ⟨_, hplace, hremoves⟩ := hrings ring _ hslots hlap 1 (by decide)
  obtain ⟨hkept, hsucceeds, hreads⟩ := hremoves [7] rfl
  have hnone : removed.result.2 = none := hsucceeds hrange (Nat.le_of_lt hheld)
  have hmoved : removed.ring.consumer = 0 := by decide
  obtain ⟨hpeek, htake⟩ := hreads hrange hheld
  rw [hplace.trans (show _ = 0 by decide)] at hpeek htake
  exact ⟨hcapacity, hexact, hrest, hconsumer, hadvanced, hslot, hplaces,
    hspan ring.consumer hconsumer 2 hplaces, hproducer,
    (hspans ring.producer ring.consumer hproducer hconsumer).1, ⟨_, hslots⟩, hlap, rfl, hrange,
    hheld, hnone, (hkept hnone).1, hmoved, hpeek, htake⟩

end Ring

end SpscRing
