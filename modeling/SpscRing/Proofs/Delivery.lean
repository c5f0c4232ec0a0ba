import SpscRing.Proofs.Transfers
/-!
# First in, first out

As long as nobody else writes its indices, a ring is a queue over its whole history:
what came in is what left it followed by what it holds, and its two indices count what
came in and what left. Every single change keeps that, and so every run of calls does.
-/

namespace SpscRing

/-- An item that left a ring: it was handed to the consumer, or dropped from its slot. -/
inductive Departure (α : Type) where
  | delivered (item : α)
  | evicted (item : α) (slot : UInt64)
  deriving DecidableEq, Repr

namespace Departure

variable {α : Type}

def item : Departure α → α
  | delivered item => item
  | evicted item _ => item

def delivered? : Departure α → Option α
  | delivered item => some item
  | evicted _ _ => none

end Departure

def Event.departure? {α : Type} : Event α → Option (Departure α)
  | delivered item => some (.delivered item)
  | evicted item slot => some (.evicted item slot)
  | _ => none

def arrivals {α : Type} (events : List (Event α)) : List α := events.filterMap Event.accepted?

def departures {α : Type} (events : List (Event α)) : List (Departure α) :=
  events.filterMap Event.departure?

@[simp] theorem arrivals_append {α : Type} (earlier later : List (Event α)) :
    arrivals (earlier ++ later) = arrivals earlier ++ arrivals later :=
  List.filterMap_append

@[simp] theorem departures_append {α : Type} (earlier later : List (Event α)) :
    departures (earlier ++ later) = departures earlier ++ departures later :=
  List.filterMap_append

theorem accepted_transfers {α : Type} (events : List (Event α)) :
    (transfers events).filterMap Transfer.accepted? = arrivals events := by
  rw [transfers, List.filterMap_filterMap, arrivals]
  congr 1
  funext event
  cases event <;> rfl

theorem delivered_transfers {α : Type} (events : List (Event α)) :
    (transfers events).filterMap Transfer.delivered? =
      (departures events).filterMap Departure.delivered? := by
  rw [transfers, List.filterMap_filterMap, departures, List.filterMap_filterMap]
  congr 1
  funext event
  cases event <;> rfl

theorem length_departures {α : Type} (events : List (Event α)) :
    (departures events).length =
      ((transfers events).filterMap Transfer.delivered?).length +
        (events.filterMap Event.evicted?).length := by
  rw [delivered_transfers]
  induction events with
  | nil => rfl
  | cons event later ih =>
      have hone : (departures [event]).length =
          ((departures [event]).filterMap Departure.delivered?).length +
            ([event].filterMap Event.evicted?).length := by
        cases event <;> rfl
      rw [← List.singleton_append, departures_append, List.filterMap_append,
        List.filterMap_append, List.length_append, List.length_append, List.length_append]
      omega

namespace Ring

variable {α : Type}

/-- A ring goes on from another after some events: it is in order, its items are in
order of arrival, and its indices have moved on by the items that came in and left. The
slot of a dropped item is the one that its place among all that left stands for. -/
structure Since (start : Ring α) (events : List (Event α)) (ring : Ring α) : Prop where
  inRange : ring.inRange = true
  capacity : ring.capacity = start.capacity
  items : start.contents ++ arrivals events =
    (departures events).map Departure.item ++ ring.contents
  producer : ring.producer.toNat =
    (start.producer.toNat + (arrivals events).length) % start.lap.toNat
  consumer : ring.consumer.toNat =
    (start.consumer.toNat + (departures events).length) % start.lap.toNat
  slots : ∀ place item slot, (departures events)[place]? = some (.evicted item slot) →
    slot.toNat = (start.consumer.toNat + place) % start.capacity.toNat

/-! ## Single changes -/

/-- What leaves memory and indices alone, and moves no item. -/
theorem Since.quiet {ring : Ring α} (hrange : ring.inRange = true) (overwrite : Bool)
    (pacing : Pacing) (latch : FaultLatch) (recorder : Recorder) {events : List (Event α)}
    (harrivals : arrivals events = []) (hdepartures : departures events = []) :
    Since ring events
      { ring with
        overwrite := overwrite, pacing := pacing, latch := latch, recorder := recorder } := by
  obtain ⟨hproducer, hconsumer, _⟩ := inRange_iff.mp hrange
  rw [UInt64.lt_iff_toNat_lt] at hproducer hconsumer
  refine ⟨hrange, rfl, ?_, ?_, ?_, ?_⟩
  · rw [harrivals, hdepartures, List.append_nil]
    rfl
  · rw [harrivals]
    exact (Nat.mod_eq_of_lt hproducer).symm
  · rw [hdepartures]
    exact (Nat.mod_eq_of_lt hconsumer).symm
  · rw [hdepartures]
    nofun

theorem Since.rest {ring : Ring α} (hrange : ring.inRange = true) : Since ring [] ring :=
  .quiet hrange ring.overwrite ring.pacing ring.latch ring.recorder rfl rfl

theorem Since.accept {ring : Ring α} (hrange : ring.inRange = true)
    (hroom : ring.span.toNat + 1 < ring.capacity.toNat) (item : α) :
    Since ring (ring.accept item).events (ring.accept item).ring := by
  obtain ⟨hafter, hcontents⟩ := contents_accept hrange hroom item
  obtain ⟨hproducer, hconsumer, _⟩ := inRange_iff.mp hrange
  refine ⟨hafter, capacity_accept ring item, ?_, Index.toNat_next_mod hproducer, ?_, nofun⟩
  · rw [hcontents]
    rfl
  · rw [UInt64.lt_iff_toNat_lt] at hconsumer
    exact (Nat.mod_eq_of_lt hconsumer).symm

/-- Releasing the oldest item, whether the consumer gets it or the producer drops it. -/
theorem Since.release {ring : Ring α} {slots : Slots α} (hslots : ring.storage = .lent slots)
    (hrange : ring.inRange = true) (hsome : 0 < ring.span.toNat) (recorder : Recorder)
    {event : Event α}
    (hevent : event = .delivered (slots.read ring.consumer) ∨
      event = .evicted (slots.read ring.consumer) (slots.slotOf ring.consumer)) :
    Since ring [event] { ring.release with recorder := recorder } := by
  obtain ⟨hafter, hcontents⟩ := contents_release hrange hsome
  obtain ⟨hproducer, hconsumer, _⟩ := inRange_iff.mp hrange
  have hitems : ring.contents = slots.read ring.consumer :: ring.release.contents := by
    rw [hcontents]
    exact contents_eq_cons hslots hrange hsome
  have hkept : ring.release.producer.toNat = (ring.producer.toNat + 0) % ring.lap.toNat := by
    rw [UInt64.lt_iff_toNat_lt] at hproducer
    rw [producer_release]
    exact (Nat.mod_eq_of_lt hproducer).symm
  have hmoved : ring.release.consumer.toNat = (ring.consumer.toNat + 1) % ring.lap.toNat := by
    rw [consumer_release]
    exact Index.toNat_next_mod hconsumer
  have hslot : (slots.slotOf ring.consumer).toNat =
      (ring.consumer.toNat + 0) % ring.capacity.toNat := by
    rw [Slots.toNat_slotOf, toNat_capacity_of_slots hslots]
    rfl
  rcases hevent with rfl | rfl
  · refine ⟨hafter, capacity_release ring, ?_, hkept, hmoved, ?_⟩
    · exact (List.append_nil _).trans hitems
    · intro place item slot hplace
      cases place <;> cases hplace
  · refine ⟨hafter, capacity_release ring, ?_, hkept, hmoved, ?_⟩
    · exact (List.append_nil _).trans hitems
    · intro place item slot hplace
      cases place with
      | zero =>
          cases hplace
          exact hslot
      | succ place => cases hplace

theorem Since.lap_eq {start ring : Ring α} {events : List (Event α)}
    (hsince : Since start events ring) : ring.lap = start.lap := by
  rw [lap, hsince.capacity, lap]

theorem Since.trans {start middle final : Ring α} {events later : List (Event α)}
    (hfirst : Since start events middle) (hsecond : Since middle later final) :
    Since start (events ++ later) final := by
  have hlap := hfirst.lap_eq
  refine ⟨hsecond.inRange, hsecond.capacity.trans hfirst.capacity, ?_, ?_, ?_, ?_⟩
  · rw [arrivals_append, departures_append, List.map_append, ← List.append_assoc, hfirst.items,
      List.append_assoc, hsecond.items, List.append_assoc]
  · rw [hsecond.producer, hlap, hfirst.producer, Nat.mod_add_mod, arrivals_append,
      List.length_append, Nat.add_assoc]
  · rw [hsecond.consumer, hlap, hfirst.consumer, Nat.mod_add_mod, departures_append,
      List.length_append, Nat.add_assoc]
  · intro place item slot hplace
    rw [departures_append] at hplace
    by_cases hearly : place < (departures events).length
    · rw [List.getElem?_append_left hearly] at hplace
      exact hfirst.slots place item slot hplace
    · rw [List.getElem?_append_right (by omega)] at hplace
      have hplaces :
          (departures events).length + (place - (departures events).length) = place := by omega
      -- The lap is a multiple of the capacity, so an index that went round names the same slot.
      have hdvd : start.capacity.toNat ∣ start.lap.toNat := Index.dvd_toNat_lap start.capacity
      calc slot.toNat
        _ = (middle.consumer.toNat + (place - (departures events).length)) %
              start.capacity.toNat := by
            rw [hsecond.slots _ item slot hplace, hfirst.capacity]
        _ = (start.consumer.toNat + (departures events).length +
              (place - (departures events).length)) % start.capacity.toNat := by
            rw [hfirst.consumer, Nat.add_mod, Nat.mod_mod_of_dvd _ hdvd, ← Nat.add_mod]
        _ = (start.consumer.toNat + place) % start.capacity.toNat := by
            rw [Nat.add_assoc, hplaces]

theorem Move.since {ring next : Ring α} {events : List (Event α)} (hrange : ring.inRange = true)
    (hmove : Move false ring events next) : Since ring events next := by
  have hkept : ∀ {events : List (Event α)} (latch : FaultLatch) (recorder : Recorder),
      arrivals events = [] → departures events = [] →
        Since ring events { ring with latch := latch, recorder := recorder } :=
    fun latch recorder => .quiet hrange ring.overwrite ring.pacing latch recorder
  cases hmove with
  | offer _ item =>
      have hend := offered ring item ring.overwrite
      generalize ring.offer item ring.overwrite = outcome at hend ⊢
      cases hend with
      | inert | corrupted => exact hkept ring.latch ring.recorder rfl rfl
      | full => exact hkept ring.latch _ rfl rfl
      | replaced hslots _ hfull _ hmany =>
          -- A drop and an insert, one after the other.
          have hdrop : Since ring _ ring.release :=
            .release hslots hrange (by omega) ring.release.recorder (.inr rfl)
          exact hdrop.trans (.accept hdrop.inRange (room_release hslots hrange hfull hmany) item)
      | accepted hslots _ hroom =>
          rw [← toNat_capacity_of_slots hslots] at hroom
          exact .accept hrange hroom item
  | take =>
      have hend := taken ring
      generalize ring.take = outcome at hend ⊢
      cases hend with
      | inert | corrupted => exact hkept ring.latch ring.recorder rfl rfl
      | empty => exact hkept ring.latch _ rfl rfl
      | delivered hslots _ hsome => exact .release hslots hrange hsome _ (.inl rfl)
  | check =>
      have hend := checked ring
      generalize ring.integrity = outcome at hend ⊢
      cases hend with
      | inert | corrupted | sound => exact hkept ring.latch ring.recorder rfl rfl
  | fail => exact hkept _ ring.recorder rfl rfl
  | giveUp => exact hkept ring.latch ring.recorder rfl rfl
  | force hstray => cases hstray

theorem Change.since {ring next : Ring α} {events : List (Event α)} (hrange : ring.inRange = true)
    (hchange : Change false ring events next) : Since ring events next := by
  cases hchange with
  | move hmove => exact hmove.since hrange
  | setUp hstray => cases hstray
  | setPacing _ pacing line =>
      have hend := ring.paced pacing line
      generalize ring.setPacing pacing line = outcome at hend ⊢
      cases hend with
      | installed => exact .quiet hrange ring.overwrite pacing ring.latch ring.recorder rfl rfl
      | refused => exact .quiet hrange ring.overwrite ring.pacing _ ring.recorder rfl rfl
  | setOverwrite _ enabled =>
      exact .quiet hrange enabled ring.pacing ring.latch ring.recorder rfl rfl
  | resetCounters =>
      exact .quiet hrange ring.overwrite ring.pacing ring.latch ring.recorder.reset rfl rfl
  | clearFailure => exact .quiet hrange ring.overwrite ring.pacing .clear ring.recorder rfl rfl

/-- Whatever happens to a ring in order, it goes on from where it started, at every moment. -/
theorem Course.since {start ring : Ring α} {events : List (Event α)}
    (hrange : start.inRange = true) (hcourse : Course (Change false) start events ring) :
    Since start events ring := by
  induction hcourse with
  | rest => exact .rest hrange
  | step _ hchange ih => exact ih.trans (hchange.since ih.inRange)

end Ring

/-! ## Runs of calls on a ring just set up -/

namespace Ring

variable {α : Type}

theorem span_rebind (ring : Ring α) (storage : Storage α) : (ring.rebind storage).span = 0 := by
  simp [span, rebind, Index.span]

theorem inRange_rebind (ring : Ring α) (slots : Slots α) :
    (ring.rebind (.lent slots)).inRange = true := by
  have hpos : 0 < (ring.rebind (.lent slots)).capacity.toNat := capacity_pos_of_slots rfl
  have hlap := Index.le_toNat_lap hpos
  refine inRange_iff.mpr ⟨?_, ?_, ?_⟩
  · exact UInt64.lt_iff_toNat_lt.mpr (Nat.lt_of_lt_of_le hpos hlap)
  · exact UInt64.lt_iff_toNat_lt.mpr (Nat.lt_of_lt_of_le hpos hlap)
  · rw [span_rebind]
    exact UInt64.lt_iff_toNat_lt.mpr hpos

theorem contents_rebind (ring : Ring α) (slots : Slots α) :
    (ring.rebind (.lent slots)).contents = [] := by
  rw [contents_of_inRange rfl (inRange_rebind ring slots), span_rebind]
  rfl

/-- The indices of a ring of so many slots, after so many items came in and so many left.
Both numbers are without bound, and what is left of them is below the number of slots. -/
structure Represents (size accepted left : Nat) (ring : Ring α) : Prop where
  storage : ∃ slots, ring.storage = .lent slots ∧ slots.cells.size = size
  capacity : ring.capacity.toNat = size
  lap : ring.lap = Index.lap ring.capacity
  producer : ring.producer.toNat = accepted % ring.lap.toNat
  consumer : ring.consumer.toNat = left % ring.lap.toNat
  left_le : left ≤ accepted
  held_lt : accepted - left < size
  occupancy : ring.occupancy.toNat = accepted - left
  sound : ∀ line, (ring.check line).result = .ok ()

theorem Since.represents {fresh ring : Ring α} {slots : Slots α} {events : List (Event α)}
    (hsince : Since (fresh.rebind (.lent slots)) events ring) :
    Represents slots.cells.size (arrivals events).length (departures events).length ring := by
  obtain ⟨held, hheld⟩ := exists_slots_of_inRange hsince.inRange
  have hlap := hsince.lap_eq
  have hcapacity : ring.capacity.toNat = slots.cells.size := by
    rw [hsince.capacity]
    exact toNat_capacity_of_slots rfl
  have hsize : held.cells.size = slots.cells.size := by
    rw [← hcapacity, toNat_capacity_of_slots hheld]
  have hspan := span_lt_size hheld hsince.inRange
  have hoccupancy := length_contents ring
  have hcount := congrArg List.length hsince.items
  rw [contents_rebind, List.nil_append, List.length_append, List.length_map] at hcount
  rw [length_contents_of_inRange hsince.inRange] at hoccupancy hcount
  have hproducer := hsince.producer
  have hconsumer := hsince.consumer
  rw [← hlap, show (fresh.rebind (.lent slots)).producer.toNat = 0 from rfl, Nat.zero_add]
    at hproducer
  rw [← hlap, show (fresh.rebind (.lent slots)).consumer.toNat = 0 from rfl, Nat.zero_add]
    at hconsumer
  refine ⟨⟨held, hheld, hsize⟩, hcapacity, rfl, hproducer, hconsumer, ?_, ?_, ?_, ?_⟩
  · omega
  · omega
  · omega
  · intro line
    rw [check, integrity_of_inRange hsince.inRange]
    rfl

end Ring

namespace Session

open SpscRing.Ring

variable {α : Type} {session : Session α} {store : Option Nat} {line : UInt32}

theorem lend_ready (hready : (session.lend store line).1.result = .ok ()) :
    ∃ slots : Slots α, store.bind (session.returned[·]?) = some slots.toMemory ∧
      (session.lend store line).2.ring = session.ring.rebind (.lent slots) := by
  cases hmemory : store.bind (session.returned[·]?) with
  | none => simp [lend, hmemory, setUp, Outcome.tracked, Outcome.fail] at hready
  | some memory =>
      by_cases hpos : 0 < memory.cells.size
      · refine ⟨⟨memory, hpos⟩, rfl, ?_⟩
        simp [lend, hmemory, Memory.lend, hpos, setUp]
      · simp [lend, hmemory, Memory.lend, hpos, setUp, Outcome.tracked, Outcome.fail] at hready

theorem inRange_lend (hready : (session.lend store line).1.result = .ok ()) :
    (session.lend store line).2.ring.inRange = true := by
  obtain ⟨slots, _, hring⟩ := lend_ready hready
  rw [hring]
  exact inRange_rebind session.ring slots

theorem course_of_steady (session : Session α) {calls : List (Call α)}
    (hsteady : ∀ call ∈ calls, call.steady = true) :
    let run := session.performAll calls
    Course (Change false) session.ring (run.1.flatMap Step.allEvents) run.2.ring :=
  session.course_performAll calls fun call hcall => .inr (hsteady call hcall)

/-- After a ring was set up, and as long as it is not set up again and nobody else writes
its indices: the items accepted, by the answers of all calls in their order, are those
that left followed by those held, and the items delivered are those that left without
the dropped ones. The log gives the slot of a dropped item, which is its place among all
that left. -/
theorem first_in_first_out (hready : (session.lend store line).1.result = .ok ())
    (calls : List (Call α)) (hsteady : ∀ call ∈ calls, call.steady = true) :
    let run := (session.lend store line).2.performAll calls
    let moved := Call.transfersAll calls (run.1.map Step.reply)
    let left := departures (run.1.flatMap Step.allEvents)
    moved.filterMap Transfer.accepted? = left.map Departure.item ++ run.2.ring.contents ∧
      moved.filterMap Transfer.delivered? = left.filterMap Departure.delivered? ∧
      ∀ place item slot, left[place]? = some (.evicted item slot) →
        slot.toNat = place % run.2.ring.capacity.toNat := by
  obtain ⟨slots, _, hring⟩ := lend_ready hready
  have hsince := (course_of_steady _ hsteady).since (inRange_lend hready)
  have hmoved := (session.lend store line).2.transfers_performAll calls
  intro run moved left
  have hitems := hsince.items
  rw [hring, contents_rebind, List.nil_append] at hitems
  refine ⟨?_, ?_, ?_⟩
  · rw [← hitems, ← accepted_transfers, hmoved]
  · rw [← delivered_transfers, hmoved]
  · intro place item slot hplace
    rw [hsince.capacity, hsince.slots place item slot hplace, hring]
    congr 1
    exact Nat.zero_add place

def small : Session Nat := .fresh .full [⟨#[0, 0, 0], by decide⟩]

/-- A wait that ends when a peer makes room, a drop, and calls through the halves. -/
def smallCalls : List (Call Nat) :=
  [.shared (.insert 1 2), .shared (.insert 2 3),
    .shared (.insertWithin 3 (.ofMillis 1) (.exact .zero) [[.remove 5]] 6), .setOverwrite true,
    .split [.insert 4 9, .removeMany [0] 10]]

theorem first_in_first_out_small :
    (small.lend (some 0) 1).1.result = .ok () ∧ (∀ call ∈ smallCalls, call.steady = true) ∧
      let run := (small.lend (some 0) 1).2.performAll smallCalls
      let moved := Call.transfersAll smallCalls (run.1.map Step.reply)
      let left := departures (run.1.flatMap Step.allEvents)
      moved.filterMap Transfer.accepted? = [1, 2, 3] ++ [4] ∧
        moved.filterMap Transfer.delivered? = [1, 3] ∧
        ∀ place item slot, left[place]? = some (.evicted item slot) → slot.toNat = place % 3 :=
  ⟨rfl, by decide, first_in_first_out rfl smallCalls (by decide)⟩

/-- Under the same conditions the two indices count, modulo the lap, the items accepted
and the items that left, by the answers and the drops logged. That holds after the run,
and of every ring on its way there: the run is a course of single changes. -/
theorem indices_count_items (hready : (session.lend store line).1.result = .ok ())
    (calls : List (Call α)) (hsteady : ∀ call ∈ calls, call.steady = true) :
    let start := (session.lend store line).2
    let run := start.performAll calls
    let journal := run.1.flatMap Step.allEvents
    let moved := Call.transfersAll calls (run.1.map Step.reply)
    ∃ memory, store.bind (session.returned[·]?) = some memory ∧
      Represents memory.cells.size (moved.filterMap Transfer.accepted?).length
        ((moved.filterMap Transfer.delivered?).length +
          (journal.filterMap Event.evicted?).length) run.2.ring ∧
      Course (Change false) start.ring journal run.2.ring ∧
      ∀ events ring, Course (Change false) start.ring events ring →
        Represents memory.cells.size (arrivals events).length (departures events).length ring := by
  obtain ⟨slots, hmemory, hring⟩ := lend_ready hready
  have hmoved := (session.lend store line).2.transfers_performAll calls
  intro start run journal moved
  have hcourse : Course (Change false) start.ring journal run.2.ring :=
    start.course_of_steady hsteady
  have hpassed : ∀ events ring, Course (Change false) start.ring events ring →
      Represents slots.cells.size (arrivals events).length (departures events).length ring := by
    intro events ring hpassed
    have hsince := hpassed.since (inRange_lend hready)
    rw [hring] at hsince
    exact hsince.represents
  refine ⟨slots.toMemory, hmemory, ?_, hcourse, hpassed⟩
  rw [show moved = transfers journal from hmoved.symm, accepted_transfers, ← length_departures]
  exact hpassed journal run.2.ring hcourse

theorem indices_count_items_small :
    (small.lend (some 0) 1).1.result = .ok () ∧ (∀ call ∈ smallCalls, call.steady = true) ∧
      let start := (small.lend (some 0) 1).2
      let run := start.performAll smallCalls
      ∃ memory, small.returned[0]? = some memory ∧
        Represents memory.cells.size 4 3 run.2.ring ∧
        Course (Change false) start.ring (run.1.flatMap Step.allEvents) run.2.ring ∧
        ∀ events ring, Course (Change false) start.ring events ring →
          Represents memory.cells.size (arrivals events).length (departures events).length ring :=
  have hready : (small.lend (some 0) 1).1.result = .ok () := rfl
  ⟨hready, by decide, indices_count_items hready smallCalls (by decide)⟩

end Session

end SpscRing
