import SpscRing.Exact.Basic
import SpscRing.Ring.Bulk
import SpscRing.Ring.Timed
/-!
# A ring in exact arithmetic

Every operation that works on the indices or on the slots, evaluated a second time: in
the same order, behind the same guards, but in exact arithmetic. A result here says that
nothing overflowed on the way, no divisor was zero, and every slot touched was there.
Counters are left as they are, since they are meant to wrap.
-/

namespace SpscRing.Exact

variable {α : Type}

/-! ## What a ring can be asked -/

def held (ring : Ring α) : Option UInt64 := do
  let lap ← lap ring.capacity
  span ring.producer ring.consumer lap

def trusted (ring : Ring α) : Option Bool := do
  let lap ← lap ring.capacity
  inRange ring.producer ring.consumer lap ring.capacity

def occupancy (ring : Ring α) : Option UInt64 :=
  if ring.lacksSlots then some 0
  else do
    let sound ← trusted ring
    if sound then held ring else return 0

def freeSpace (ring : Ring α) : Option UInt64 :=
  if ring.lacksSlots then some 0
  else do
    let sound ← trusted ring
    if sound then
      let most ← sub ring.capacity 1
      let held ← held ring
      sub most held
    else return 0

/-! ## Single items -/

def evict (ring : Ring α) (slots : Slots α) : Option (Ring α × List (Event α)) := do
  let lap ← lap ring.capacity
  let next ← next ring.consumer lap
  match ring.swapConsumer? ring.consumer next with
  | some freed =>
    let item ← read slots ring.consumer
    let slot ← slotOf slots ring.consumer
    return (freed, [.evicted item slot])
  | none => return (ring, [])

def accept (ring : Ring α) (slots : Slots α) (item : α) :
    Option (Outcome α (Except Fault Unit)) := do
  let lap ← lap ring.capacity
  let next ← next ring.producer lap
  let slots ← write slots ring.producer item
  let occupancy ← span next ring.consumer lap
  return {
    result := .ok ()
    ring :=
      { ring with
        storage := .lent slots
        producer := next
        recorder := ring.recorder.record (.countInsert occupancy) }
    events := [.accepted item occupancy] }

def offer (ring : Ring α) (item : α) (overwrite : Bool) :
    Option (Outcome α (Except Fault Unit)) :=
  match ring.storage.slots? with
  | .error fault => some (.fail ring fault [])
  | .ok slots => do
    let sound ← trusted ring
    if !sound then
      return .fail ring .corrupted
        [.outOfRange .insert ring.producer ring.consumer slots.capacity]
    else
      let held ← held ring
      let most ← sub slots.capacity 1
      if held = most then
        if !overwrite || slots.capacity == 1 then
          return .fail (ring.count .countOverflow) .full [.rejectedFull slots.capacity]
        else
          let (freed, events) ← evict ring slots
          let outcome ← accept freed slots item
          return outcome.after events
      else
        accept ring slots item

/-- A swap that finds the index moved has no result: nobody else moves it here. -/
def release (ring : Ring α) : Option (Ring α) := do
  let lap ← lap ring.capacity
  let next ← next ring.consumer lap
  if ring.overwrite then
    ring.swapConsumer? ring.consumer next
  else
    return { ring with consumer := next }

def take (ring : Ring α) : Option (Outcome α (Except Fault α)) :=
  match ring.storage.slots? with
  | .error fault => some (.fail ring fault [])
  | .ok slots => do
    let sound ← trusted ring
    if !sound then
      return .fail ring .corrupted
        [.outOfRange .remove ring.producer ring.consumer slots.capacity]
    else if ring.consumer = ring.producer then
      return .fail (ring.count .countUnderflow) .empty [.rejectedEmpty]
    else
      let item ← read slots ring.consumer
      let released ← release ring
      return ⟨.ok item, released.count .countRemove, [.delivered item]⟩

def itemAt (ring : Ring α) (offset : UInt64) : Option (Except Fault α) :=
  match ring.storage.slots? with
  | .error fault => some (.error fault)
  | .ok slots => do
    let sound ← trusted ring
    if !sound then return .error .corrupted
    else
      let held ← held ring
      if held ≤ offset then return .error .badOffset
      else
        let first ← slotOf slots ring.consumer
        let place ← add first offset
        let item ← read slots place
        return .ok item

def integrity (ring : Ring α) : Option (Outcome α (Except Fault Unit)) :=
  match ring.storage.slots? with
  | .error fault => some (.fail ring fault [])
  | .ok slots => do
    let sound ← trusted ring
    if !sound then
      return .fail ring .corrupted
        [.outOfRange .check ring.producer ring.consumer slots.capacity]
    else return ⟨.ok (), ring, []⟩

/-! ## Many items -/

/-- The items that came in are counted in a word. -/
def offerEach (overwrite : Bool) : List α → Ring α → Option (Outcome α (Nat × Option Fault))
  | [], ring => some ⟨(0, none), ring, []⟩
  | item :: later, ring => do
    let ⟨result, ring, events⟩ ← offer ring item overwrite
    match result with
    | .error fault => return ⟨(0, some fault), ring, events⟩
    | .ok () =>
      let rest ← offerEach overwrite later ring
      let count ← succ rest.result.1
      return (rest.map fun result => (count, result.2)).after events

def fillEach : List α → Ring α → Option (Outcome α (Nat × Option Fault) × List α)
  | [], ring => some (⟨(0, none), ring, []⟩, [])
  | cell :: later, ring => do
    let ⟨result, ring, events⟩ ← take ring
    match result with
    | .error fault => return (⟨(0, some fault), ring, events⟩, cell :: later)
    | .ok item =>
      let rest ← fillEach later ring
      let count ← succ rest.1.result.1
      return ((rest.1.map fun result => (count, result.2)).after events, item :: rest.2)

def offerAll (ring : Ring α) (items : List α) : Option (Outcome α (Except Fault Nat)) :=
  match ring.storage.slots? with
  | .error fault => some (.fail ring fault [])
  | .ok _ =>
    if items.isEmpty then some (.fail ring .noItems [])
    else do
      let moved ← offerEach ring.overwrite items ring
      return moved.map fun
        | (0, some fault) => .error fault
        | (count, _) => .ok count

def fillAll (ring : Ring α) (buffer : List α) :
    Option (Outcome α (Except Fault Nat) × List α) :=
  match ring.storage.slots? with
  | .error fault => some (.fail ring fault [], buffer)
  | .ok _ =>
    if buffer.isEmpty then some (.fail ring .noItems [], buffer)
    else do
      let (filled, cells) ← fillEach buffer ring
      let moved := filled.map fun
        | (0, some fault) => .error fault
        | (count, _) => .ok count
      return (moved, cells)

/-! ## Waits -/

/-- The time that is left: a difference that is not negative. -/
def timeLeft (timeout reading : Duration) : Option Duration :=
  if reading ≤ timeout then some (timeout - reading) else none

section

variable {β ρ σ ι : Type} (clock : Clock σ ι ρ) (pacing : Pacing) (timeout : Duration)
  (retryOn : Fault) (attempt : σ → Option (Except Fault β × σ))

def retry (start : ι) : Nat → Duration → σ → Option (Wait β ρ σ)
  | 0, _, world => some ⟨.unsettled, [], world⟩
  | rounds + 1, delay, world =>
    let (reading, world) := clock.elapsed start world
    if timeout ≤ reading then
      some ⟨.gaveUp, [.elapsed reading], world⟩
    else do
      let left ← timeLeft timeout reading
      let length := min delay left
      let (report, world) := clock.sleep length world
      let (outcome, world) ← attempt world
      let beats := [.elapsed reading, .sleep length report, .attempt outcome]
      if failsWith retryOn outcome then
        let rest ← retry start rounds (pacing.nextDelay delay) world
        return rest.after beats
      else
        return ⟨.settled outcome, beats, world⟩

def wait (rounds : Nat) (world : σ) : Option (Wait β ρ σ) := do
  let (start, world) := clock.now world
  let (outcome, world) ← attempt world
  let beats := [.now, .attempt outcome]
  if failsWith retryOn outcome && !timeout.isZero then
    match pacing.validate with
    | .error fault => return ⟨.settled (.error fault), beats, world⟩
    | .ok () =>
      let rest ← retry clock pacing timeout retryOn attempt start rounds pacing.interval world
      return rest.after beats
  else
    return ⟨.settled outcome, beats, world⟩

end

def perform {κ β : Type} (action : Ring α → Option (Outcome α β)) :
    Waiting α κ → Option (β × Waiting α κ)
  | ⟨ring, history, clock⟩ => do
    let outcome ← action ring
    return (outcome.result, ⟨outcome.ring, outcome.events.reverse ++ history, clock⟩)

/-! ## Calls -/

section

variable (ring : Ring α) (line : UInt32)

def insert (item : α) : Option (Outcome α (Except Fault Unit)) := do
  let outcome ← offer ring item ring.overwrite
  return outcome.tracked .insert line

def remove : Option (Outcome α (Except Fault α)) := do
  let outcome ← take ring
  return outcome.tracked .remove line

def peek (offset : UInt64) : Option (Outcome α (Except Fault α)) := do
  let result ← itemAt ring offset
  return (Outcome.query ring result).tracked .peek line

def check : Option (Outcome α (Except Fault Unit)) := do
  let outcome ← integrity ring
  return outcome.tracked .check line

def insertMany (items : List α) : Option (Outcome α (Except Fault Nat)) := do
  let outcome ← offerAll ring items
  return outcome.tracked .insertMany line

def removeMany (buffer : List α) : Option (Outcome α (Except Fault Nat × List α)) := do
  let (filled, cells) ← fillAll ring buffer
  return (filled.tracked .removeMany line).map fun result => (result, cells)

def insertWithin {κ ι ρ : Type} (item : α) (timeout : Duration)
    (clock : Clock (Waiting α κ) ι ρ) (rounds : Nat) (start : κ) :
    Option (Wait Unit ρ (Waiting α κ)) := do
  let attempt := perform (offer · item ring.overwrite)
  let wait ← wait clock ring.pacing timeout .full attempt rounds ⟨ring, [], start⟩
  return Ring.concludeWait .insertWithin .full line timeout wait

def removeWithin {κ ι ρ : Type} (timeout : Duration) (clock : Clock (Waiting α κ) ι ρ)
    (rounds : Nat) (start : κ) : Option (Wait α ρ (Waiting α κ)) := do
  let wait ← wait clock ring.pacing timeout .empty (perform take) rounds ⟨ring, [], start⟩
  return Ring.concludeWait .removeWithin .empty line timeout wait

end

end SpscRing.Exact
