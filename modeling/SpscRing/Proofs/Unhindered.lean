import Mathlib.Algebra.GroupWithZero.Nat
import SpscRing.Proofs.Dropping
/-!
# Calls that are not held up

The producer is held up where an insert finds the ring full, and the consumer where a remove finds
it empty. Both show in the events. A call that is not held up moves all the items that it brings
or asks for, and a timed one of this kind has no need to wait.
-/

namespace SpscRing

variable {α : Type}

/-! ## Being held up -/

def Event.isHindrance : Event α → Bool
  | rejectedFull _ | evicted _ _ | rejectedEmpty => true
  | _ => false

/-- No insert among what events tell of found the ring full, and no remove found it empty. -/
def Unhindered (events : List (Event α)) : Prop := ∀ event ∈ events, event.isHindrance = false

instance (events : List (Event α)) : Decidable (Unhindered events) :=
  inferInstanceAs (Decidable (∀ event ∈ events, _))

theorem unhindered_append {earlier later : List (Event α)} :
    Unhindered (earlier ++ later) ↔ Unhindered earlier ∧ Unhindered later :=
  List.forall_mem_append

theorem unhindered_of_logLines {events : List (Event α)} (hsilent : logLines events = []) :
    Unhindered events := by
  intro event hevent
  have hline := List.filterMap_eq_nil_iff.mp hsilent event hevent
  cases event with
  | rejectedFull | evicted | rejectedEmpty => cases hline
  | _ => rfl

/-- What left a ring where nothing was dropped was handed out. -/
theorem delivered_of_unhindered {events : List (Event α)} (hfree : Unhindered events) :
    (departures events).filterMap Departure.delivered? =
      (departures events).map Departure.item := by
  rw [← List.filterMap_eq_map]
  apply List.filterMap_congr
  intro departure hdeparture
  obtain ⟨event, hevent, hleft⟩ := List.mem_filterMap.mp hdeparture
  cases event with
  | delivered =>
      cases hleft
      rfl
  | evicted => cases hfree _ hevent
  | _ => cases hleft

namespace Ring

variable {ring next : Ring α} {events : List (Event α)}

section

variable (hrange : ring.inRange = true)

include hrange

/-- The events of an attempt to insert show whether it was made on a full ring. -/
theorem unhindered_offer (item : α) (mode : Bool) :
    Unhindered (ring.offer item mode).events ↔ ring.isFull = false := by
  have hend := ring.offered item mode
  generalize ring.offer item mode = outcome at hend ⊢
  cases hend with
  | inert hslots => exact absurd hslots (slots?_of_inRange hrange _)
  | corrupted _ hbad => simp [hrange] at hbad
  | full hslots _ hfull | replaced hslots _ hfull =>
      rw [(isFull_iff hslots hrange).mpr hfull]
      exact iff_of_false (fun hfree => Bool.noConfusion (hfree _ List.mem_cons_self)) (by decide)
  | accepted hslots _ hroom =>
      rw [← toNat_capacity_of_slots hslots, ← isFull_eq_false_iff hrange] at hroom
      exact iff_of_true (List.forall_mem_singleton.mpr rfl) hroom

theorem unhindered_take : Unhindered ring.take.events ↔ ring.isEmpty = false := by
  rw [isEmpty_eq_false_iff hrange]
  have hend := ring.taken
  generalize ring.take = outcome at hend ⊢
  cases hend with
  | inert hslots => exact absurd hslots (slots?_of_inRange hrange _)
  | corrupted _ hbad => simp [hrange] at hbad
  | empty _ _ hnone =>
      exact iff_of_false (fun hfree => Bool.noConfusion (hfree _ List.mem_cons_self)) (by omega)
  | delivered _ _ hsome => exact iff_of_true (List.forall_mem_singleton.mpr rfl) hsome

end

/-- What went out where neither side was held up: the oldest of what was there and what came in. -/
theorem Since.delivered_eq (hsince : Since ring events next) (hfree : Unhindered events) :
    (departures events).filterMap Departure.delivered? =
      (ring.contents ++ arrivals events).take (departures events).length := by
  rw [delivered_of_unhindered hfree, hsince.items, ← List.length_map Departure.item,
    List.take_left]

end Ring

/-! ## What calls carry -/

/-- Events tell of these items coming in and of so many going out. -/
structure Carries (items : List α) (out : Nat) (events : List (Event α)) : Prop where
  arrivals_eq : arrivals events = items
  length_departures : (departures events).length = out

namespace Carries

variable {items more : List α} {out further : Nat} {events later : List (Event α)}

theorem append (hfirst : Carries items out events) (hsecond : Carries more further later) :
    Carries (items ++ more) (out + further) (events ++ later) where
  arrivals_eq := by rw [arrivals_append, hfirst.arrivals_eq, hsecond.arrivals_eq]
  length_departures := by
    rw [departures_append, List.length_append, hfirst.length_departures, hsecond.length_departures]

theorem tracked {β : Type} {outcome : Outcome α (Except Fault β)}
    (hcarries : Carries items out outcome.events) (operation : Operation) (line : UInt32) :
    Carries items out (outcome.tracked operation line).events := by
  rcases outcome with ⟨fault | _, ring, events⟩
  · have hrecord : Carries [] 0 [(.failed operation fault line : Event α)] := ⟨rfl, rfl⟩
    have hboth := hcarries.append hrecord
    rwa [List.append_nil, Nat.add_zero] at hboth
  · exact hcarries

end Carries

theorem unhindered_tracked {β : Type} {outcome : Outcome α (Except Fault β)}
    {operation : Operation} {line : UInt32}
    (hfree : Unhindered (outcome.tracked operation line).events) : Unhindered outcome.events := by
  rcases outcome with ⟨_ | _, ring, events⟩
  · exact (unhindered_append.mp hfree).1
  · exact hfree

namespace Ring

variable {ring : Ring α}

section

variable (hrange : ring.inRange = true)

include hrange

theorem offer_of_unhindered {item : α} {mode : Bool}
    (hfree : Unhindered (ring.offer item mode).events) :
    ring.span.toNat + 1 < ring.capacity.toNat ∧ ring.offer item mode = ring.accept item := by
  have hroom : ring.span.toNat + 1 < ring.capacity.toNat :=
    (isFull_eq_false_iff hrange).mp ((unhindered_offer hrange item mode).mp hfree)
  exact ⟨hroom, offer_of_room hrange hroom item mode⟩

theorem take_of_unhindered (hfree : Unhindered ring.take.events) :
    0 < ring.span.toNat ∧
      ∃ item, ring.take = ⟨.ok item, ring.release.count .countRemove, [.delivered item]⟩ := by
  obtain ⟨slots, hslots⟩ := exists_slots_of_inRange hrange
  have hsome : 0 < ring.span.toNat :=
    (isEmpty_eq_false_iff hrange).mp ((unhindered_take hrange).mp hfree)
  exact ⟨hsome, _, take_of_some hslots hrange hsome⟩

theorem carries_offer {item : α} {mode : Bool}
    (hfree : Unhindered (ring.offer item mode).events) :
    Carries [item] 0 (ring.offer item mode).events := by
  rw [(offer_of_unhindered hrange hfree).2]
  exact ⟨rfl, rfl⟩

theorem carries_take (hfree : Unhindered ring.take.events) : Carries [] 1 ring.take.events := by
  obtain ⟨_, _, htake⟩ := take_of_unhindered hrange hfree
  rw [htake]
  exact ⟨rfl, rfl⟩

end

theorem carries_offerEach (mode : Bool) (items : List α) {ring : Ring α}
    (hrange : ring.inRange = true) (hfree : Unhindered (offerEach mode items ring).events) :
    Carries items 0 (offerEach mode items ring).events := by
  induction items generalizing ring with
  | nil => exact ⟨rfl, rfl⟩
  | cons item later ih =>
      have hgoes : Unhindered (ring.offer item mode).events →
          ring.span.toNat + 1 < ring.capacity.toNat ∧ ring.offer item mode = ring.accept item :=
        offer_of_unhindered hrange
      rw [offerEach] at hfree ⊢
      generalize ring.offer item mode = outcome at hgoes hfree ⊢
      rcases outcome with ⟨fault | _, next, events⟩
      · cases (hgoes hfree).2
      · obtain ⟨hfirst, hlater⟩ := unhindered_append.mp hfree
        obtain ⟨hroom, haccept⟩ := hgoes hfirst
        cases haccept
        have hone : Carries [item] 0 (ring.accept item).events := ⟨rfl, rfl⟩
        exact hone.append (ih (contents_accept hrange hroom item).1 hlater)

theorem carries_takeEach (limit : Nat) {ring : Ring α} (hrange : ring.inRange = true)
    (hfree : Unhindered (takeEach limit ring).events) :
    Carries [] limit (takeEach limit ring).events := by
  induction limit generalizing ring with
  | zero => exact ⟨rfl, rfl⟩
  | succ limit ih =>
      have hgoes : Unhindered ring.take.events → 0 < ring.span.toNat ∧
          ∃ item, ring.take = ⟨.ok item, ring.release.count .countRemove, [.delivered item]⟩ :=
        take_of_unhindered hrange
      rw [takeEach] at hfree ⊢
      generalize ring.take = outcome at hgoes hfree ⊢
      rcases outcome with ⟨fault | item, next, events⟩
      · obtain ⟨_, _, htake⟩ := hgoes hfree
        cases htake
      · obtain ⟨hfirst, hlater⟩ := unhindered_append.mp hfree
        obtain ⟨hsome, _, htake⟩ := hgoes hfirst
        cases htake
        have hone : Carries [] 1 [(.delivered item : Event α)] := ⟨rfl, rfl⟩
        rw [Nat.add_comm]
        exact hone.append (ih (contents_release hrange hsome).1 hlater)

theorem events_offerAll {slots : Slots α} (hslots : ring.storage = .lent slots)
    (items : List α) :
    (ring.offerAll items).events = (offerEach ring.overwrite items ring).events := by
  cases items with
  | nil => simp [offerAll, hslots, Storage.slots?, offerEach, Outcome.fail]
  | cons item later => simp [offerAll, hslots, Storage.slots?, Outcome.map]

theorem events_takeAll {slots : Slots α} (hslots : ring.storage = .lent slots) (limit : Nat) :
    (ring.takeAll limit).events = (takeEach limit ring).events := by
  cases limit with
  | zero => simp [takeAll, hslots, Storage.slots?, takeEach, Outcome.fail]
  | succ limit => simp [takeAll, hslots, Storage.slots?, Outcome.map]

theorem carries_offerAll (hrange : ring.inRange = true) {items : List α}
    (hfree : Unhindered (ring.offerAll items).events) :
    Carries items 0 (ring.offerAll items).events := by
  obtain ⟨slots, hslots⟩ := exists_slots_of_inRange hrange
  rw [events_offerAll hslots] at hfree ⊢
  exact carries_offerEach _ _ hrange hfree

theorem carries_takeAll (hrange : ring.inRange = true) {limit : Nat}
    (hfree : Unhindered (ring.takeAll limit).events) :
    Carries [] limit (ring.takeAll limit).events := by
  obtain ⟨slots, hslots⟩ := exists_slots_of_inRange hrange
  rw [events_takeAll hslots] at hfree ⊢
  exact carries_takeEach _ hrange hfree

theorem carries_removeMany (hrange : ring.inRange = true) {buffer : List α} {line : UInt32}
    (hfree : Unhindered (ring.removeMany buffer line).events) :
    Carries [] buffer.length (ring.removeMany buffer line).events := by
  rw [events_removeMany] at hfree ⊢
  exact (carries_takeAll hrange (unhindered_tracked hfree)).tracked .removeMany line

end Ring

theorem WaitingCall.events_eq {β : Type} {attempt : Ring α → Outcome α (Except Fault β)}
    {operation : Operation} {waitingOn : Fault} {line : UInt32} {timeout : Duration}
    {interludes : List (Interlude α)} {ring final : Ring α} {verdict : Verdict β}
    {trace : List (Beat β (List (Answer α)))} {events : List (Event α)}
    (hcall : WaitingCall attempt operation waitingOn line timeout interludes ring verdict trace
      events final)
    (hgoes : Unhindered (attempt ring).events → ∃ result, (attempt ring).result = .ok result)
    (hfree : Unhindered events) : events = (attempt ring).events := by
  obtain ⟨hwaited, hconcluded⟩ := hcall
  have hearlier := (unhindered_append.mp hfree).1
  cases hwaited with
  | atOnce htried =>
      subst htried
      obtain ⟨result, hresult⟩ := hgoes hearlier
      rw [hresult] at hconcluded
      cases hconcluded
      exact List.append_nil _
  | badPacing htried hfails =>
      subst htried
      obtain ⟨result, hresult⟩ := hgoes hearlier
      rw [hresult] at hfails
      cases hfails
  | later htried hfails =>
      subst htried
      obtain ⟨result, hresult⟩ := hgoes (unhindered_append.mp hearlier).1
      rw [hresult] at hfails
      cases hfails

namespace SharedCall

def isInsertion : SharedCall α → Bool
  | insert .. | insertMany .. | insertManyCount .. | insertWithin .. => true
  | _ => false

def isRemoval : SharedCall α → Bool
  | remove .. | removeMany .. | removeManyCount .. | removeWithin .. => true
  | _ => false

def brings : SharedCall α → List α
  | insert item _ | insertWithin item _ _ _ _ => [item]
  | insertMany items _ | insertManyCount items _ => items
  | _ => []

def asks : SharedCall α → Nat
  | remove _ | removeWithin _ _ _ _ => 1
  | removeMany buffer _ | removeManyCount buffer _ => buffer.length
  | _ => 0

theorem brings_of_not_isInsertion {call : SharedCall α} (hother : call.isInsertion = false) :
    call.brings = [] := by
  cases call with
  | insert | insertMany | insertManyCount | insertWithin => cases hother
  | _ => rfl

theorem asks_of_not_isRemoval {call : SharedCall α} (hother : call.isRemoval = false) :
    call.asks = 0 := by
  cases call with
  | remove | removeMany | removeManyCount | removeWithin => cases hother
  | _ => rfl

theorem brings_filter (calls : List (SharedCall α)) :
    (calls.filter isInsertion).flatMap brings = calls.flatMap brings := by
  induction calls with
  | nil => rfl
  | cons call later ih =>
      cases hside : call.isInsertion with
      | true => rw [List.filter_cons_of_pos hside, List.flatMap_cons, List.flatMap_cons, ih]
      | false =>
          rw [List.filter_cons_of_neg (Bool.eq_false_iff.mp hside), List.flatMap_cons,
            brings_of_not_isInsertion hside, List.nil_append, ih]

theorem asks_filter (calls : List (SharedCall α)) :
    ((calls.filter isRemoval).map asks).sum = (calls.map asks).sum := by
  induction calls with
  | nil => rfl
  | cons call later ih =>
      cases hside : call.isRemoval with
      | true =>
          rw [List.filter_cons_of_pos hside, List.map_cons, List.map_cons, List.sum_cons,
            List.sum_cons, ih]
      | false =>
          rw [List.filter_cons_of_neg (Bool.eq_false_iff.mp hside), List.map_cons, List.sum_cons,
            asks_of_not_isRemoval hside, Nat.zero_add, ih]

/-- A call that is not held up moves all the items that it brings or asks for. -/
theorem carries_run (call : SharedCall α) {ring : Ring α} (hrange : ring.inRange = true)
    (hfree : Unhindered (call.run ring).events) :
    Carries call.brings call.asks (call.run ring).events := by
  cases call with
  | insert item line =>
      exact (Ring.carries_offer hrange (unhindered_tracked hfree)).tracked .insert line
  | remove line => exact (Ring.carries_take hrange (unhindered_tracked hfree)).tracked .remove line
  | insertMany items line | insertManyCount items line =>
      exact (Ring.carries_offerAll hrange (unhindered_tracked hfree)).tracked .insertMany line
  | removeMany buffer line | removeManyCount buffer line =>
      exact Ring.carries_removeMany hrange hfree
  | insertWithin item timeout clock scripts line =>
      obtain ⟨_, _, _, hcall⟩ := waitingCall_insertWithin item timeout clock scripts line ring
      have hgoes : Unhindered (ring.offer item ring.overwrite).events →
          ∃ result, (ring.offer item ring.overwrite).result = .ok result := fun hfirst => by
        rw [(Ring.offer_of_unhindered hrange hfirst).2]
        exact ⟨(), rfl⟩
      have hevents := hcall.events_eq hgoes hfree
      rw [hevents] at hfree ⊢
      exact Ring.carries_offer hrange hfree
  | removeWithin timeout clock scripts line =>
      obtain ⟨_, _, _, hcall⟩ := waitingCall_removeWithin timeout clock scripts line ring
      have hgoes : Unhindered ring.take.events → ∃ result, ring.take.result = .ok result :=
        fun hfirst => by
          obtain ⟨_, item, htook⟩ := Ring.take_of_unhindered hrange hfirst
          rw [htook]
          exact ⟨item, rfl⟩
      have hevents := hcall.events_eq hgoes hfree
      rw [hevents] at hfree ⊢
      exact Ring.carries_take hrange hfree
  | peek offset line =>
      have hnothing : Carries [] 0 (Outcome.query ring (ring.itemAt offset)).events := ⟨rfl, rfl⟩
      exact hnothing.tracked .peek line
  | check line | isSound line =>
      have hnothing : Carries [] 0 ring.integrity.events := by
        rw [Ring.integrity_of_inRange hrange]
        exact ⟨rfl, rfl⟩
      exact hnothing.tracked .check line
  | query question => exact ⟨rfl, rfl⟩
  | forceIndices producer consumer => exact ⟨rfl, rfl⟩

theorem since_run {call : SharedCall α} (hsteady : call.steady = true) {ring : Ring α}
    (hrange : ring.inRange = true) :
    Ring.Since ring (call.run ring).events (call.run ring).ring := by
  have hmoves : Ring.Course (Ring.Move false) ring _ _ := call.moves_run (.inr hsteady) ring
  have hcourse : Ring.Course (Ring.Change false) ring _ _ := hmoves.mono fun _ _ _ => .move
  exact hcourse.since hrange

theorem carries_runAll {calls : List (SharedCall α)} (hsteady : ∀ call ∈ calls, call.steady = true)
    {ring : Ring α} (hrange : ring.inRange = true) (hfree : Unhindered (runAll calls ring).events) :
    Carries (calls.flatMap brings) (calls.map asks).sum (runAll calls ring).events := by
  induction calls generalizing ring with
  | nil => exact ⟨rfl, rfl⟩
  | cons call later ih =>
      obtain ⟨hcall, hlater⟩ := List.forall_mem_cons.mp hsteady
      obtain ⟨hfirst, hrest⟩ := unhindered_append.mp hfree
      have hafter := (since_run hcall hrange).inRange
      exact (call.carries_run hrange hfirst).append (ih hlater hafter hrest)

end SharedCall

end SpscRing
