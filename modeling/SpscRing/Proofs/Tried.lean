import SpscRing.Proofs.Delivery
import SpscRing.Proofs.Ledger
import SpscRing.Proofs.Rejection
/-!
# Attempts

Every attempt to insert or to remove ends in an item that moved or in a fault. The answers of
a run tell of each attempt in order, those within waits as well, and so do its events, but for
attempts on a ring that could not be used at all.
-/

namespace SpscRing

/-! ## What answers and events tell -/

/-- How an attempt ended: with an item that came in or went out, or with a fault. A wait that
gives up fails once more, without another attempt. -/
abbrev Tried (α : Type) := Except Fault (Transfer α)

namespace Tried

variable {α : Type}

def accepts : Tried α → Bool
  | .ok (.accepted _) => true
  | _ => false

def delivers : Tried α → Bool
  | .ok (.delivered _) => true
  | _ => false

/-- Whether the counters or the log account for an attempt: others were made on a ring that
could not be used at all. -/
def isCounted : Tried α → Bool
  | .ok _ | .error .full | .error .empty | .error .timedOut => true
  | .error _ => false

/-- The attempts of a bulk call over so many places: one for each item moved, and the one that
stopped it before the last place. -/
def ofBulk (moved : List (Transfer α)) (limit : Nat) (stop : Fault) : List (Tried α) :=
  moved.map .ok ++ if moved.length < limit then [.error stop] else []

def ofVerdict {β : Type} : Verdict β → List (Tried α)
  | .gaveUp => [.error .timedOut]
  | .settled _ | .unsettled => []

def ofAnswer : SharedCall α → Answer α → List (Tried α)
  | .insert item _, .unit result => [result.map fun _ => .accepted item]
  | .remove _, .item result => [result.map .delivered]
  | .insertMany items _, .count (.ok count) =>
    ofBulk ((items.take count).map .accepted) items.length .full
  | .removeMany buffer _, .buffer (.ok count) cells =>
    ofBulk ((cells.take count).map .delivered) buffer.length .empty
  | .insertMany _ _, .count (.error fault) | .removeMany _ _, .buffer (.error fault) _ =>
    [.error fault]
  | .insertWithin .., .waitedInsert verdict _ => ofVerdict verdict
  | .removeWithin .., .waitedRemove verdict _ => ofVerdict verdict
  | _, _ => []

def reading (α : Type) : Reading α (Tried α) where
  offered item result := [result.map fun _ => .accepted item]
  taken result := [result.map .delivered]
  ended := ofAnswer
  control _ _ := []
  shown _ := []

theorem countP_filter {counted : Tried α → Bool}
    (hcounted : ∀ attempt, counted attempt = true → attempt.isCounted = true)
    (tried : List (Tried α)) : (tried.filter isCounted).countP counted = tried.countP counted := by
  rw [List.countP_filter]
  apply List.countP_congr
  intro attempt _
  simpa using hcounted attempt

theorem accepts_filter (tried : List (Tried α)) :
    (tried.filter isCounted).countP accepts = tried.countP accepts := by
  refine countP_filter (fun attempt haccepts => ?_) tried
  cases attempt with
  | error => cases haccepts
  | ok => rfl

theorem delivers_filter (tried : List (Tried α)) :
    (tried.filter isCounted).countP delivers = tried.countP delivers := by
  refine countP_filter (fun attempt hdelivers => ?_) tried
  cases attempt with
  | error => cases hdelivers
  | ok => rfl

theorem rejections_filter (fault : Fault) (hfault : isCounted (.error fault : Tried α) = true)
    (tried : List (Tried α)) :
    rejections fault (tried.filter isCounted) = rejections fault tried := by
  refine countP_filter (fun attempt hfails => ?_) tried
  rw [failsWith_iff.mp hfails]
  exact hfault

/-- An attempt on a ring without slots is not counted. -/
theorem filter_inert {fault : Fault} {storage : Storage α}
    (hslots : storage.slots? = .error fault) :
    [(.error fault : Tried α)].filter isCounted = [] := by
  obtain ⟨_, rfl⟩ | ⟨_, rfl⟩ := Storage.inert_of_slots? hslots
  · rfl
  · rfl

theorem ofBulk_cons (first : Transfer α) (moved : List (Transfer α)) (limit : Nat)
    (stop : Fault) :
    ofBulk (first :: moved) (limit + 1) stop = .ok first :: ofBulk moved limit stop := by
  simp only [ofBulk, List.map_cons, List.length_cons, Nat.add_lt_add_iff_right, List.cons_append]

theorem filter_ofBulk (moved : List (Transfer α)) (limit : Nat) {stop : Fault}
    (hstop : isCounted (.error stop : Tried α) = true) :
    (ofBulk moved limit stop).filter isCounted = ofBulk moved limit stop := by
  apply List.filter_eq_self.mpr
  intro tried htried
  rcases List.mem_append.mp htried with hmoved | hstopped
  · obtain ⟨_, _, rfl⟩ := List.mem_map.mp hmoved
    rfl
  · split at hstopped
    · rw [List.mem_singleton.mp hstopped]
      exact hstop
    · cases hstopped

end Tried

def Event.tried? {α : Type} : Event α → Option (Tried α)
  | accepted item _ => some (.ok (.accepted item))
  | delivered item => some (.ok (.delivered item))
  | rejectedFull _ => some (.error .full)
  | rejectedEmpty => some (.error .empty)
  | timedOut _ _ => some (.error .timedOut)
  | _ => none

def attempts {α : Type} (events : List (Event α)) : List (Tried α) :=
  events.filterMap Event.tried?

theorem attempts_append {α : Type} (earlier later : List (Event α)) :
    attempts (earlier ++ later) = attempts earlier ++ attempts later :=
  List.filterMap_append

def triedLedger (α : Type) : Ledger α (Tried α) where
  toReading := Tried.reading α
  holds _ events tried _ := attempts events = tried.filter Tried.isCounted
  rest _ := rfl
  trans := by
    intro _ _ _ events later tried more hfirst hsecond
    rw [attempts_append, List.filter_append, hfirst, hsecond]

/-! ## Single attempts -/

namespace Ring

variable {α : Type}

theorem attempts_offer (ring : Ring α) (item : α) (overwrite : Bool) :
    attempts (ring.offer item overwrite).events =
      [(ring.offer item overwrite).result.map fun _ => .accepted item].filter Tried.isCounted := by
  have hend := offered ring item overwrite
  generalize ring.offer item overwrite = outcome at hend ⊢
  cases hend with
  | inert hslots => exact (Tried.filter_inert hslots).symm
  | corrupted | full | replaced | accepted => rfl

theorem attempts_take (ring : Ring α) :
    attempts ring.take.events = [ring.take.result.map .delivered].filter Tried.isCounted := by
  have hend := taken ring
  generalize ring.take = outcome at hend ⊢
  cases hend with
  | inert hslots => exact (Tried.filter_inert hslots).symm
  | corrupted | empty | delivered => rfl

theorem attempts_integrity (ring : Ring α) : attempts ring.integrity.events = [] := by
  have hend := checked ring
  generalize ring.integrity = outcome at hend ⊢
  cases hend with
  | inert | corrupted | sound => rfl

theorem attempts_tracked {β : Type} (outcome : Outcome α (Except Fault β))
    (operation : Operation) (line : UInt32) :
    attempts (outcome.tracked operation line).events = attempts outcome.events := by
  obtain ⟨_ | _, ring, events⟩ := outcome
  · exact (attempts_append events _).trans (List.append_nil _)
  · rfl

/-! ## Bulk attempts -/

theorem inRange_offer (ring : Ring α) (item : α) (overwrite : Bool) :
    (ring.offer item overwrite).result = .ok () →
      (ring.offer item overwrite).ring.inRange = true := by
  have hend := offered ring item overwrite
  generalize ring.offer item overwrite = outcome at hend ⊢
  intro haccepts
  cases hend with
  | inert | corrupted | full => cases haccepts
  | replaced hslots hrange hfull _ hmany =>
      exact (contents_replace hslots hrange hfull hmany item).1
  | accepted hslots hrange hroom =>
      rw [← toNat_capacity_of_slots hslots] at hroom
      exact (contents_accept hrange hroom item).1

theorem inRange_take (ring : Ring α) :
    ∀ item, ring.take.result = .ok item → ring.take.ring.inRange = true := by
  have hend := taken ring
  generalize ring.take = outcome at hend ⊢
  intro item hdelivers
  cases hend with
  | inert | corrupted | empty => cases hdelivers
  | delivered _ hrange hsome => exact (contents_release hrange hsome).1

theorem eq_full_of_offer {ring : Ring α} (hrange : ring.inRange = true) (item : α)
    (overwrite : Bool) :
    ∀ fault, (ring.offer item overwrite).result = .error fault → fault = .full := by
  have hend := offered ring item overwrite
  generalize ring.offer item overwrite = outcome at hend
  intro cause hfails
  cases hend with
  | inert hslots => exact absurd hslots (slots?_of_inRange hrange _)
  | corrupted _ hcorrupted =>
      rw [hrange] at hcorrupted
      cases hcorrupted
  | full =>
      cases hfails
      rfl
  | replaced | accepted => cases hfails

theorem eq_empty_of_take {ring : Ring α} (hrange : ring.inRange = true) :
    ∀ fault, ring.take.result = .error fault → fault = .empty := by
  have hend := taken ring
  generalize ring.take = outcome at hend
  intro cause hfails
  cases hend with
  | inert hslots => exact absurd hslots (slots?_of_inRange hrange _)
  | corrupted _ hcorrupted =>
      rw [hrange] at hcorrupted
      cases hcorrupted
  | empty =>
      cases hfails
      rfl
  | delivered => cases hfails

theorem attempts_offerEach (overwrite : Bool) (items : List α) {ring : Ring α}
    (hrange : ring.inRange = true) :
    attempts (offerEach overwrite items ring).events =
      Tried.ofBulk ((items.take (offerEach overwrite items ring).result.1).map .accepted)
        items.length .full := by
  induction items generalizing ring with
  | nil => rfl
  | cons item later ih =>
      have hattempt := ring.attempts_offer item overwrite
      have hfull := eq_full_of_offer hrange item overwrite
      have hnext := ring.inRange_offer item overwrite
      rw [offerEach]
      generalize ring.offer item overwrite = outcome at hattempt hfull hnext
      obtain ⟨fault | _, next, events⟩ := outcome
      · cases hfull fault rfl
        exact hattempt
      · simp only [Outcome.after, Outcome.map, attempts_append, List.take_succ_cons,
          List.map_cons, List.length_cons, Tried.ofBulk_cons, ih (hnext rfl)]
        rw [hattempt]
        rfl

theorem attempts_takeEach (limit : Nat) {ring : Ring α} (hrange : ring.inRange = true) :
    attempts (takeEach limit ring).events =
      Tried.ofBulk ((takeEach limit ring).result.1.map .delivered) limit .empty := by
  induction limit generalizing ring with
  | zero => rfl
  | succ limit ih =>
      have hattempt := ring.attempts_take
      have hempty := eq_empty_of_take hrange
      have hnext := ring.inRange_take
      rw [takeEach]
      generalize ring.take = outcome at hattempt hempty hnext
      obtain ⟨fault | item, next, events⟩ := outcome
      · cases hempty fault rfl
        exact hattempt
      · simp only [Outcome.after, Outcome.map, attempts_append, List.map_cons,
          Tried.ofBulk_cons, ih (hnext item rfl)]
        rw [hattempt]
        rfl

/-- What a bulk insert answers tells of its attempts: the items that came in, and the one that
was rejected, if any was. -/
theorem attempts_offerAll (ring : Ring α) (items : List α) (line : UInt32) :
    attempts (ring.offerAll items).events =
      (Tried.ofAnswer (.insertMany items line)
        (.count (ring.offerAll items).result)).filter Tried.isCounted := by
  unfold offerAll
  cases hslots : ring.storage.slots? with
  | error fault => exact (Tried.filter_inert hslots).symm
  | ok slots =>
      cases items with
      | nil => rfl
      | cons item later =>
          have hattempt := ring.attempts_offer item ring.overwrite
          have hnext := ring.inRange_offer item ring.overwrite
          simp only [List.isEmpty_cons, Bool.false_eq_true, if_false, offerEach]
          generalize ring.offer item ring.overwrite = outcome at hattempt hnext
          obtain ⟨fault | _, next, events⟩ := outcome
          · exact hattempt
          · have hlater := attempts_offerEach ring.overwrite later (hnext rfl)
            simp only [Outcome.after, Outcome.map, attempts_append, Tried.ofAnswer,
              List.take_succ_cons, List.map_cons, List.length_cons, Tried.ofBulk_cons]
            rw [hlater, List.filter_cons_of_pos rfl, Tried.filter_ofBulk _ _ rfl, hattempt]
            rfl

theorem attempts_takeAll (ring : Ring α) (limit : Nat) :
    attempts (ring.takeAll limit).events =
      (match (ring.takeAll limit).result with
        | .ok items => Tried.ofBulk (items.map .delivered) limit .empty
        | .error fault => [.error fault]).filter Tried.isCounted := by
  unfold takeAll
  cases hslots : ring.storage.slots? with
  | error fault => exact (Tried.filter_inert hslots).symm
  | ok slots =>
      cases limit with
      | zero => rfl
      | succ limit =>
          have hattempt := ring.attempts_take
          have hnext := ring.inRange_take
          simp only [Nat.add_one_ne_zero, if_false, takeEach]
          generalize ring.take = outcome at hattempt hnext
          obtain ⟨fault | item, next, events⟩ := outcome
          · exact hattempt
          · have hlater := attempts_takeEach limit (hnext item rfl)
            simp only [Outcome.after, Outcome.map, attempts_append, List.map_cons,
              Tried.ofBulk_cons]
            rw [hlater, List.filter_cons_of_pos rfl, Tried.filter_ofBulk _ _ rfl, hattempt]
            rfl

theorem attempts_removeMany (ring : Ring α) (buffer : List α) (line : UInt32) :
    attempts (ring.removeMany buffer line).events =
      (Tried.ofAnswer (.removeMany buffer line)
        (.buffer (ring.removeMany buffer line).result.1
          (ring.removeMany buffer line).result.2)).filter Tried.isCounted := by
  have hall := ring.attempts_takeAll buffer.length
  rw [← attempts_tracked _ .removeMany line] at hall
  rw [removeMany_eq_takeAll]
  generalize ring.takeAll buffer.length = taken at hall
  obtain ⟨fault | items, next, events⟩ := taken
  · exact hall
  · have hfront : (fillFront items buffer).take items.length = items := List.take_left
    show attempts events =
      (Tried.ofBulk (((fillFront items buffer).take items.length).map .delivered) buffer.length
        .empty).filter Tried.isCounted
    rw [hfront]
    exact hall

theorem attempts_setUp (ring : Ring α) (storage : Storage α) (line : UInt32) :
    attempts (ring.setUp storage line).events = [] := by
  cases storage with
  | absent | noCells | lent => rfl

theorem attempts_setPacing (ring : Ring α) (pacing : Pacing) (line : UInt32) :
    attempts (ring.setPacing pacing line).events = [] := by
  have hend := paced ring pacing line
  generalize ring.setPacing pacing line = outcome at hend ⊢
  cases hend with
  | installed | refused => rfl

end Ring

/-! ## Sessions -/

section

variable {α β : Type}

theorem attempts_concluded {operation : Operation} {waitingOn : Fault} {line : UInt32}
    {timeout : Duration} {verdict : Verdict β} {ring final : Ring α} {closing : List (Event α)}
    (hconcluded : Concluded operation waitingOn line timeout verdict ring closing final) :
    attempts closing = (Tried.ofVerdict verdict).filter Tried.isCounted := by
  cases hconcluded with
  | moved | failed | gaveUp | unsettled => rfl

theorem attempts_direct {call : SharedCall α} (hdirect : call.isDirect = true) (ring : Ring α) :
    attempts (call.run ring).events =
      (Tried.ofAnswer call (call.run ring).result).filter Tried.isCounted := by
  cases call with
  | insert item line =>
      have hoffer := ring.attempts_offer item ring.overwrite
      rw [← Ring.attempts_tracked _ .insert line, ← Outcome.result_tracked _ .insert line] at hoffer
      exact hoffer
  | remove line =>
      have htake := ring.attempts_take
      rw [← Ring.attempts_tracked _ .remove line, ← Outcome.result_tracked _ .remove line] at htake
      exact htake
  | insertMany items line =>
      have hall := ring.attempts_offerAll items line
      rw [← Ring.attempts_tracked _ .insertMany line, ← Outcome.result_tracked _ .insertMany line]
        at hall
      exact hall
  | removeMany buffer line => exact ring.attempts_removeMany buffer line
  | peek offset line => exact Ring.attempts_tracked (.query ring (ring.itemAt offset)) .peek line
  | check line => exact (Ring.attempts_tracked _ .check line).trans ring.attempts_integrity
  | query | forceIndices => rfl
  | insertManyCount | removeManyCount | isSound | insertWithin | removeWithin => cases hdirect

theorem attempts_control {call : Call α} (session : Session α) (hcontrol : call.isControl = true) :
    attempts (session.perform call).1.allEvents =
      ((Tried.reading α).reply call (session.perform call).1.reply).filter Tried.isCounted := by
  cases call with
  | setUp store line => exact session.ring.attempts_setUp _ line
  | setPacing pacing line => exact session.ring.attempts_setPacing pacing line
  | setOverwrite | resetCounters | clearFailure => rfl
  | shared | split => cases hcontrol

theorem kept_triedLedger : (triedLedger α).Kept where
  offer item mode ring := ring.attempts_offer item mode
  take := Ring.attempts_take
  insertWithin _ _ _ _ _ _ _ _ _ _ := attempts_concluded
  removeWithin _ _ _ _ _ _ _ _ _ := attempts_concluded
  direct _ := attempts_direct
  control _ := attempts_control
  shown _ := rfl

end

end SpscRing
