import SpscRing.Ring.Basic
/-!
# Single items in and out

The producer writes a slot and then moves its index on; the consumer reads a slot and
then moves its own. When the producer may drop old items, both of them move the
consumer's index, and each moves it only from the value it has seen.
-/

namespace SpscRing.Ring

/-- Drop the oldest item to make room, if nobody has removed it yet. -/
def evict {α : Type} (ring : Ring α) (slots : Slots α) : Ring α × List (Event α) :=
  let seen := ring.consumer
  match ring.swapConsumer? seen (Index.next seen ring.lap) with
  | some freed => (freed, [.evicted (slots.read seen) (slots.slotOf seen)])
  | none => (ring, [])

def accept {α : Type} (ring : Ring α) (item : α) : Outcome α (Except Fault Unit) :=
  let index := ring.producer
  let next := Index.next index ring.lap
  let occupancy := Index.span next ring.consumer ring.lap
  { result := .ok ()
    ring :=
      { ring with
        storage := ring.storage.write index item
        producer := next
        recorder := ring.recorder.record (.countInsert occupancy) }
    events := [.accepted item occupancy] }

def offer {α : Type} (ring : Ring α) (item : α) (overwrite : Bool) :
    Outcome α (Except Fault Unit) :=
  match ring.storage.slots? with
  | .error fault => .fail ring fault []
  | .ok slots =>
    if !ring.inRange then
      .fail ring .corrupted [.outOfRange .insert ring.producer ring.consumer slots.capacity]
    else if ring.span = slots.capacity - 1 then
      if !overwrite || slots.capacity == 1 then
        .fail (ring.count .countOverflow) .full [.rejectedFull slots.capacity]
      else
        let (freed, events) := ring.evict slots
        (freed.accept item).after events
    else
      ring.accept item

/-- Take the oldest item off the ring. With dropping turned on the index is swapped,
otherwise it is simply stored: then nobody else moves it. -/
def release {α : Type} (ring : Ring α) : Ring α :=
  let next := Index.next ring.consumer ring.lap
  if ring.overwrite then
    (ring.swapConsumer? ring.consumer next).get (by simp [swapConsumer?_self])
  else
    { ring with consumer := next }

/-- Both ways of taking an item off move the consumer's index on by one. -/
theorem release_eq {α : Type} (ring : Ring α) :
    ring.release = { ring with consumer := Index.next ring.consumer ring.lap } := by
  by_cases hmode : ring.overwrite = true <;> simp [release, hmode, swapConsumer?_self]

theorem evict_eq {α : Type} (ring : Ring α) (slots : Slots α) :
    ring.evict slots =
      ({ ring with consumer := Index.next ring.consumer ring.lap },
        [.evicted (slots.read ring.consumer) (slots.slotOf ring.consumer)]) := by
  simp [evict, swapConsumer?_self]

def take {α : Type} (ring : Ring α) : Outcome α (Except Fault α) :=
  match ring.storage.slots? with
  | .error fault => .fail ring fault []
  | .ok slots =>
    if !ring.inRange then
      .fail ring .corrupted [.outOfRange .remove ring.producer ring.consumer slots.capacity]
    else if ring.consumer = ring.producer then
      .fail (ring.count .countUnderflow) .empty [.rejectedEmpty]
    else
      let item := slots.read ring.consumer
      ⟨.ok item, ring.release.count .countRemove, [.delivered item]⟩

def itemAt {α : Type} (ring : Ring α) (offset : UInt64) : Except Fault α :=
  match ring.storage.slots? with
  | .error fault => .error fault
  | .ok slots =>
    if !ring.inRange then .error .corrupted
    else if ring.span ≤ offset then .error .badOffset
    else .ok (slots.read (slots.slotOf ring.consumer + offset))

def integrity {α : Type} (ring : Ring α) : Outcome α (Except Fault Unit) :=
  match ring.storage.slots? with
  | .error fault => .fail ring fault []
  | .ok slots =>
    if !ring.inRange then
      .fail ring .corrupted [.outOfRange .check ring.producer ring.consumer slots.capacity]
    else
      ⟨.ok (), ring, []⟩

/-! ## Calls: attempts whose failures are recorded with the caller's line -/

def insert {α : Type} (ring : Ring α) (item : α) (line : UInt32) :
    Outcome α (Except Fault Unit) :=
  (ring.offer item ring.overwrite).tracked .insert line

def remove {α : Type} (ring : Ring α) (line : UInt32) : Outcome α (Except Fault α) :=
  ring.take.tracked .remove line

def peek {α : Type} (ring : Ring α) (offset : UInt64) (line : UInt32) :
    Outcome α (Except Fault α) :=
  (Outcome.query ring (ring.itemAt offset)).tracked .peek line

def check {α : Type} (ring : Ring α) (line : UInt32) :
    Outcome α (Except Fault Unit) :=
  ring.integrity.tracked .check line

/-- The check as a yes or no; a no is recorded like a failed check. -/
def isSound {α : Type} (ring : Ring α) (line : UInt32) : Outcome α Bool :=
  (ring.check line).map Except.isOk

end SpscRing.Ring
