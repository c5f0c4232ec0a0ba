import SpscRing.BoundedQueue
import SpscRing.Proofs.Attempt
import SpscRing.Session.Basic
/-!
# A ring is a bounded queue

Read through its contents, a ring whose indices can be trusted answers every call as
the bounded queue of its items does, wherever on the lap its indices stand. Here each
attempt is compared with the queue once; runs of calls follow by induction.
-/

namespace SpscRing

inductive QueueCall (α : Type) where
  | insert (item : α) (line : UInt32)
  | remove (line : UInt32)
  | peek (offset : UInt64) (line : UInt32)
  | occupancy
  | freeSpace
  | isEmpty
  | isFull
  | check (line : UInt32)
  | setOverwrite (enabled : Bool)

def QueueCall.onRing {α : Type} : QueueCall α → Call α
  | insert item line => .shared (.insert item line)
  | remove line => .shared (.remove line)
  | peek offset line => .shared (.peek offset line)
  | occupancy => .shared (.query .occupancy)
  | freeSpace => .shared (.query .freeSpace)
  | isEmpty => .shared (.query .isEmpty)
  | isFull => .shared (.query .isFull)
  | check line => .shared (.check line)
  | setOverwrite enabled => .setOverwrite enabled

namespace BoundedQueue

def perform {α : Type} (queue : BoundedQueue α) : QueueCall α → Answer α × BoundedQueue α
  | .insert item _ => (.unit (queue.insert item).1, (queue.insert item).2)
  | .remove _ => (.item queue.remove.1, queue.remove.2)
  | .peek offset _ => (.item (queue.itemAt offset.toNat), queue)
  | .occupancy => (.number (.ofNat queue.items.length), queue)
  | .freeSpace => (.number (.ofNat queue.freeSpace), queue)
  | .isEmpty => (.flag queue.items.isEmpty, queue)
  | .isFull => (.flag queue.isFull, queue)
  | .check _ => (.unit (.ok ()), queue)
  | .setOverwrite enabled => (.done, { queue with overwrite := enabled })

def performAll {α : Type} : List (QueueCall α) → BoundedQueue α → List (Answer α) × BoundedQueue α
  | [], queue => ([], queue)
  | call :: later, queue =>
    let (answer, queue) := queue.perform call
    let (answers, queue) := performAll later queue
    (answer :: answers, queue)

end BoundedQueue

namespace Ring

def queue {α : Type} (ring : Ring α) : BoundedQueue α :=
  ⟨ring.contents, ring.capacity.toNat, ring.overwrite⟩

/-- An outcome is that of a queue operation when it has the same result, and leaves a
ring in order that stands for the queue after the operation. -/
def Matches {α β : Type} (outcome : Outcome α β) (expected : β × BoundedQueue α) : Prop :=
  outcome.result = expected.1 ∧ outcome.ring.inRange = true ∧ outcome.ring.queue = expected.2

theorem Matches.tracked {α β : Type} {outcome : Outcome α (Except Fault β)}
    {expected : Except Fault β × BoundedQueue α} (hmatches : Matches outcome expected)
    (operation : Operation) (line : UInt32) :
    Matches (outcome.tracked operation line) expected := by
  rcases outcome with ⟨_ | _, ring, events⟩ <;> exact hmatches

theorem Matches.map {α β γ : Type} {outcome : Outcome α β} {expected : β × BoundedQueue α}
    (hmatches : Matches outcome expected) (f : β → γ) :
    Matches (outcome.map f) (f expected.1, expected.2) :=
  ⟨congrArg f hmatches.1, hmatches.2⟩

/-! ## Attempts -/

theorem queue_insert_of_room {α : Type} {queue : BoundedQueue α}
    (hroom : queue.items.length + 1 < queue.slots) (item : α) :
    queue.insert item = (.ok (), { queue with items := queue.items ++ [item] }) := by
  have hfull : queue.isFull = false := by
    simp only [BoundedQueue.isFull, decide_eq_false_iff_not]
    omega
  simp [BoundedQueue.insert, hfull]

theorem queue_insert_of_full {α : Type} {queue : BoundedQueue α}
    (hfull : queue.slots ≤ queue.items.length + 1) (item : α) :
    queue.insert item =
      if queue.overwrite = true ∧ 2 ≤ queue.slots then
        (.ok (), { queue with items := queue.items.tail ++ [item] })
      else (.error .full, queue) := by
  have hisFull : queue.isFull = true := by
    simp only [BoundedQueue.isFull, decide_eq_true_eq]
    exact hfull
  simp [BoundedQueue.insert, hisFull]

theorem matches_offer {α : Type} {ring : Ring α} (hrange : ring.inRange = true) (item : α) :
    Matches (ring.offer item ring.overwrite) (ring.queue.insert item) := by
  have hlength := length_contents_of_inRange hrange
  have hend := offered ring item ring.overwrite
  generalize ring.offer item ring.overwrite = outcome at hend ⊢
  cases hend with
  | inert hslots => exact absurd hslots (slots?_of_inRange hrange _)
  | corrupted _ hbad => simp [hrange] at hbad
  | full hslots _ hfull hmode =>
      have hcapacity := toNat_capacity_of_slots hslots
      have hkept : ¬(ring.queue.overwrite = true ∧ 2 ≤ ring.queue.slots) := by
        rintro ⟨hon, hmany⟩
        simp only [queue] at hon hmany
        rcases hmode with hoff | hone
        · simp [hon] at hoff
        · omega
      rw [queue_insert_of_full (by simp only [queue]; omega), if_neg hkept]
      exact ⟨rfl, hrange, rfl⟩
  | replaced hslots _ hfull hmode hmany =>
      have hcapacity := toNat_capacity_of_slots hslots
      obtain ⟨hafter, hcontents⟩ := contents_replace hslots hrange hfull hmany item
      have hdrops : ring.queue.overwrite = true ∧ 2 ≤ ring.queue.slots :=
        ⟨hmode, by simp only [queue]; omega⟩
      rw [queue_insert_of_full (by simp only [queue]; omega), if_pos hdrops]
      refine ⟨rfl, hafter, ?_⟩
      simp only [queue, Outcome.after, hcontents, overwrite_accept, overwrite_release,
        capacity_accept, capacity_release]
  | accepted hslots _ hroom =>
      have hcapacity := toNat_capacity_of_slots hslots
      obtain ⟨hafter, hcontents⟩ := contents_accept hrange (by omega) item
      rw [queue_insert_of_room (by simp only [queue]; omega)]
      refine ⟨rfl, hafter, ?_⟩
      simp only [queue, hcontents, overwrite_accept, capacity_accept]

theorem matches_take {α : Type} {ring : Ring α} (hrange : ring.inRange = true) :
    Matches ring.take ring.queue.remove := by
  have hend := taken ring
  generalize ring.take = outcome at hend ⊢
  cases hend with
  | inert hslots => exact absurd hslots (slots?_of_inRange hrange _)
  | corrupted _ hbad => simp [hrange] at hbad
  | empty _ _ hnone =>
      have hcontents : ring.contents = [] := by
        rw [← List.length_eq_zero_iff, length_contents_of_inRange hrange, hnone]
      have hremove : ring.queue.remove = (.error .empty, ring.queue) := by
        simp only [BoundedQueue.remove, queue, hcontents]
      rw [hremove]
      exact ⟨rfl, hrange, rfl⟩
  | @delivered slots hslots _ hsome =>
      obtain ⟨hafter, hcontents⟩ := contents_release hrange hsome
      have hremove : ring.queue.remove =
          (.ok (slots.read ring.consumer), { ring.queue with items := ring.contents.tail }) := by
        simp only [BoundedQueue.remove, queue]
        rw [contents_eq_cons hslots hrange hsome, List.tail_cons]
      rw [hremove]
      refine ⟨rfl, hafter, ?_⟩
      simp only [queue, contents_count, hcontents]
      congr 1
      · exact congrArg UInt64.toNat (capacity_release ring)
      · exact overwrite_release ring

theorem matches_itemAt {α : Type} {ring : Ring α} (hrange : ring.inRange = true)
    (offset : UInt64) :
    Matches (Outcome.query ring (ring.itemAt offset))
      (ring.queue.itemAt offset.toNat, ring.queue) :=
  ⟨itemAt_of_inRange hrange offset, hrange, rfl⟩

theorem matches_integrity {α : Type} {ring : Ring α} (hrange : ring.inRange = true) :
    Matches ring.integrity (.ok (), ring.queue) := by
  rw [integrity_of_inRange hrange]
  exact ⟨rfl, hrange, rfl⟩

/-! ## Questions -/

theorem occupancy_eq {α : Type} (ring : Ring α) :
    ring.occupancy = .ofNat ring.queue.items.length := by
  rw [queue, length_contents, UInt64.ofNat_toNat]

theorem toNat_freeSpace {α : Type} {ring : Ring α} (hrange : ring.inRange = true) :
    ring.freeSpace.toNat = ring.capacity.toNat - 1 - ring.span.toNat := by
  obtain ⟨slots, hslots⟩ := exists_slots_of_inRange hrange
  have hspan := span_lt_size hslots hrange
  have hless : (ring.capacity - 1).toNat = ring.capacity.toNat - 1 := by
    rw [toNat_capacity_of_slots hslots, ← slots.toNat_capacity_sub_one, capacity, hslots]
    rfl
  rw [freeSpace_eq_ite, if_pos hrange, UInt64.toNat_sub_of_le _ _ ?_, hless]
  rw [UInt64.le_iff_toNat_le, hless, toNat_capacity_of_slots hslots]
  omega

theorem freeSpace_eq {α : Type} {ring : Ring α} (hrange : ring.inRange = true) :
    ring.freeSpace = .ofNat ring.queue.freeSpace := by
  have hlength := length_contents_of_inRange hrange
  have hspace : ring.queue.freeSpace = ring.freeSpace.toNat := by
    rw [toNat_freeSpace hrange]
    simp only [BoundedQueue.freeSpace, queue, hlength]
  rw [hspace, UInt64.ofNat_toNat]

theorem isEmpty_eq {α : Type} (ring : Ring α) : ring.isEmpty = ring.queue.items.isEmpty := by
  rw [Bool.eq_iff_iff]
  simp only [isEmpty, beq_iff_eq, List.isEmpty_iff, queue, ← List.length_eq_zero_iff,
    length_contents, ← UInt64.toNat_inj, UInt64.toNat_zero]

theorem isFull_eq {α : Type} {ring : Ring α} (hrange : ring.inRange = true) :
    ring.isFull = ring.queue.isFull := by
  have hlength := length_contents_of_inRange hrange
  obtain ⟨slots, hslots⟩ := exists_slots_of_inRange hrange
  have hspan := span_lt_size hslots hrange
  have hcapacity := toNat_capacity_of_slots hslots
  rw [Bool.eq_iff_iff]
  simp only [isFull, beq_iff_eq, ← UInt64.toNat_inj, toNat_freeSpace hrange, UInt64.toNat_zero,
    BoundedQueue.isFull, queue, hlength, decide_eq_true_eq]
  omega

end Ring

/-! ## Runs of calls -/

/-- A call of a session answers as it does on the ring. -/
theorem Ring.Matches.perform {α : Type} {ring : Ring α} (call : SharedCall α)
    {expected : Answer α × BoundedQueue α} (hmatches : Matches (call.run ring) expected)
    (stores : List (Memory α)) (lent : Option Nat) :
    let (step, session) := Session.perform ⟨ring, stores, lent⟩ (.shared call)
    step.reply = .answer expected.1 ∧ session.ring.inRange = true ∧
      session.ring.queue = expected.2 :=
  ⟨congrArg Reply.answer hmatches.1, hmatches.2⟩

open SpscRing.Ring in
theorem QueueCall.matches_perform {α : Type} {ring : Ring α} (hrange : ring.inRange = true)
    (call : QueueCall α) (stores : List (Memory α)) (lent : Option Nat) :
    let (step, session) := Session.perform ⟨ring, stores, lent⟩ call.onRing
    let (answer, queue) := ring.queue.perform call
    step.reply = .answer answer ∧ session.ring.inRange = true ∧ session.ring.queue = queue := by
  have hasked : ∀ {answer expected : Answer α}, answer = expected →
      Matches (Outcome.query ring answer) (expected, ring.queue) := fun hanswer =>
    ⟨hanswer, hrange, rfl⟩
  cases call with
  | insert item line =>
      have hinsert := (matches_offer hrange item).tracked .insert line
      exact Matches.perform (.insert item line) (hinsert.map Answer.unit) stores lent
  | remove line =>
      have hremove := (matches_take hrange).tracked .remove line
      exact Matches.perform (.remove line) (hremove.map Answer.item) stores lent
  | peek offset line =>
      have hpeek := (matches_itemAt hrange offset).tracked .peek line
      exact Matches.perform (.peek offset line) (hpeek.map Answer.item) stores lent
  | occupancy =>
      have hanswer := hasked (congrArg Answer.number (occupancy_eq ring))
      exact Matches.perform (.query .occupancy) hanswer stores lent
  | freeSpace =>
      have hanswer := hasked (congrArg Answer.number (freeSpace_eq hrange))
      exact Matches.perform (.query .freeSpace) hanswer stores lent
  | isEmpty =>
      have hanswer := hasked (congrArg Answer.flag (isEmpty_eq ring))
      exact Matches.perform (.query .isEmpty) hanswer stores lent
  | isFull =>
      have hanswer := hasked (congrArg Answer.flag (isFull_eq hrange))
      exact Matches.perform (.query .isFull) hanswer stores lent
  | check line =>
      have hcheck := (matches_integrity hrange).tracked .check line
      exact Matches.perform (.check line) (hcheck.map Answer.unit) stores lent
  | setOverwrite enabled => exact ⟨rfl, hrange, rfl⟩

/-- From a ring in order, wherever on the lap its indices stand, any run of calls gives
the answers that the queue of its items gives, and leaves a ring in order that stands
for the queue left. -/
theorem performAll_onRing {α : Type} (session : Session α) (hsane : session.ring.inRange = true)
    (calls : List (QueueCall α)) :
    let run := session.performAll (calls.map QueueCall.onRing)
    let expected := session.ring.queue.performAll calls
    run.1.map Step.reply = expected.1.map Reply.answer ∧ run.2.ring.inRange = true ∧
      run.2.ring.queue = expected.2 := by
  induction calls generalizing session with
  | nil => exact ⟨rfl, hsane, rfl⟩
  | cons call later ih =>
      obtain ⟨ring, stores, lent⟩ := session
      obtain ⟨hreply, hafter, hqueue⟩ := call.matches_perform hsane stores lent
      obtain ⟨hreplies, hfinal, hlast⟩ := ih _ hafter
      rw [hqueue] at hreplies hlast
      exact ⟨List.cons_eq_cons.mpr ⟨hreply, hreplies⟩, hfinal, hlast⟩

def Session.astride : Session Nat where
  ring :=
    { storage := .lent ⟨⟨#[20, 0, 10], by decide⟩, by decide⟩
      producer := 1
      consumer := 18446744073709551614
      overwrite := false
      pacing := .default
      latch := .clear
      recorder := .off }
  stores := []
  lent := none

theorem performAll_onRing_astride :
    Session.astride.ring.inRange = true ∧
      let run := Session.astride.performAll
        ([.peek 1 4, .insert 30 5, .setOverwrite true, .insert 30 7, .occupancy, .remove 9].map
          QueueCall.onRing)
      run.1.map Step.reply =
          [.answer (.item (.ok 20)), .answer (.unit (.error .full)), .answer .done,
            .answer (.unit (.ok ())), .answer (.number 2), .answer (.item (.ok 20))] ∧
        run.2.ring.inRange = true ∧ run.2.ring.queue = ⟨[30], 3, true⟩ :=
  ⟨by decide, performAll_onRing Session.astride (by decide)
    [.peek 1 4, .insert 30 5, .setOverwrite true, .insert 30 7, .occupancy, .remove 9]⟩

end SpscRing
