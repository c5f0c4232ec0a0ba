import SpscRing.Ring.Bulk
/-!
# Removing many items, apart from the buffer

A bulk remove fills its buffer as it goes. What it does to the ring does not depend on
what the cells held, so it splits in two: the items that a number of removes gives, and
those items put into the front of the buffer.
-/

namespace SpscRing.Ring

variable {α : Type}

/-- Remove items until `limit` are out or none is left: the items, and what stopped
the rest. -/
def takeEach {α : Type} : Nat → Ring α → Outcome α (List α × Option Fault)
  | 0, ring => ⟨([], none), ring, []⟩
  | limit + 1, ring =>
    match ring.take with
    | ⟨.error fault, ring, events⟩ => ⟨([], some fault), ring, events⟩
    | ⟨.ok item, ring, events⟩ =>
      ((takeEach limit ring).map fun (items, stop) => (item :: items, stop)).after events

def takeAll {α : Type} (ring : Ring α) (limit : Nat) : Outcome α (Except Fault (List α)) :=
  match ring.storage.slots? with
  | .error fault => .fail ring fault []
  | .ok _ =>
    if limit = 0 then .fail ring .noItems []
    else (takeEach limit ring).map fun
      | ([], some fault) => .error fault
      | (items, _) => .ok items

def fillFront {α : Type} (items buffer : List α) : List α := items ++ buffer.drop items.length

def filled {α : Type} (buffer : List α) :
    Except Fault (List α) → Except Fault Nat × List α
  | .ok items => (.ok items.length, fillFront items buffer)
  | .error fault => (.error fault, buffer)

theorem length_takeEach_le (limit : Nat) (ring : Ring α) :
    (takeEach limit ring).result.1.length ≤ limit := by
  induction limit generalizing ring with
  | zero => exact Nat.le_refl 0
  | succ limit ih =>
      rw [takeEach]
      rcases ring.take with ⟨fault | item, next, events⟩
      · exact Nat.zero_le _
      · exact Nat.succ_le_succ (ih next)

theorem fillEach_eq (buffer : List α) (ring : Ring α) :
    fillEach buffer ring =
      ((takeEach buffer.length ring).map fun taken => (taken.1.length, taken.2),
        fillFront (takeEach buffer.length ring).result.1 buffer) := by
  induction buffer generalizing ring with
  | nil => rfl
  | cons cell later ih =>
      rw [fillEach, List.length_cons, takeEach]
      rcases ring.take with ⟨_ | item, next, events⟩
      · rfl
      · simp only [ih next]
        rfl

theorem fillAll_eq (ring : Ring α) (buffer : List α) :
    ring.fillAll buffer =
      ((ring.takeAll buffer.length).map fun taken => (filled buffer taken).1,
        (filled buffer (ring.takeAll buffer.length).result).2) := by
  unfold fillAll takeAll
  cases ring.storage.slots? with
  | error fault => rfl
  | ok slots =>
      cases buffer with
      | nil => rfl
      | cons cell later =>
          simp only [fillEach_eq, List.isEmpty_cons, List.length_cons, Bool.false_eq_true,
            Nat.add_one_ne_zero, if_false]
          -- No item out and a fault is the only end that fails.
          rcases takeEach (later.length + 1) ring with
            ⟨⟨_ | ⟨item, items⟩, _ | fault⟩, next, events⟩ <;> rfl

/-- A bulk remove is a run of removes whose items go into the front of the buffer. -/
theorem removeMany_eq_takeAll (ring : Ring α) (buffer : List α) (line : UInt32) :
    ring.removeMany buffer line =
      ((ring.takeAll buffer.length).tracked .removeMany line).map (filled buffer) := by
  rw [removeMany, fillAll_eq]
  rcases ring.takeAll buffer.length with ⟨_ | items, next, events⟩ <;> rfl

theorem ring_removeMany (ring : Ring α) (buffer : List α) (line : UInt32) :
    (ring.removeMany buffer line).ring =
      ((ring.takeAll buffer.length).tracked .removeMany line).ring :=
  congrArg Outcome.ring (removeMany_eq_takeAll ring buffer line)

theorem events_removeMany (ring : Ring α) (buffer : List α) (line : UInt32) :
    (ring.removeMany buffer line).events =
      ((ring.takeAll buffer.length).tracked .removeMany line).events :=
  congrArg Outcome.events (removeMany_eq_takeAll ring buffer line)

end SpscRing.Ring
