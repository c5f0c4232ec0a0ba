import SpscRing.Storage
/-!
# Exact arithmetic

Words wrap around, and a remainder by zero is a number like any other: nothing warns of
it. The operations here have a result only where the exact one is a word, no divisor is
zero, and every slot touched is there.
-/

namespace SpscRing.Exact

/-! ## Words -/

def word? (value : Int) : Option UInt64 :=
  if 0 ≤ value ∧ value ≤ Index.wordMax.toNat then some (.ofNat value.toNat) else none

def add (a b : UInt64) : Option UInt64 := word? (a.toNat + b.toNat)

def sub (a b : UInt64) : Option UInt64 := word? (a.toNat - b.toNat)

def mul (a b : UInt64) : Option UInt64 := word? (a.toNat * b.toNat)

def div (a b : UInt64) : Option UInt64 :=
  if b = 0 then none else word? (a.toNat / b.toNat)

def mod (a b : UInt64) : Option UInt64 :=
  if b = 0 then none else word? (a.toNat % b.toNat)

def succ (count : Nat) : Option Nat :=
  if count < Index.wordMax.toNat then some (count + 1) else none

theorem word?_toNat (word : UInt64) : word? word.toNat = some word := by
  have hword := word.toNat_lt
  have hmax := Index.toNat_wordMax
  rw [word?, if_pos (by omega), Int.toNat_natCast, UInt64.ofNat_toNat]

theorem word?_eq {value : Int} {word : UInt64} (hvalue : value = word.toNat) :
    word? value = some word := by
  rw [hvalue]
  exact word?_toNat word

theorem add_eq {a b : UInt64} (hfits : a.toNat + b.toNat ≤ Index.wordMax.toNat) :
    add a b = some (a + b) := by
  apply word?_eq
  have hmax := Index.toNat_wordMax
  have hsum : (a + b).toNat = a.toNat + b.toNat := by
    rw [UInt64.toNat_add]
    exact Nat.mod_eq_of_lt (by omega)
  omega

theorem sub_eq {a b : UInt64} (hle : b.toNat ≤ a.toNat) : sub a b = some (a - b) := by
  apply word?_eq
  have hdifference : (a - b).toNat = a.toNat - b.toNat :=
    UInt64.toNat_sub_of_le _ _ (UInt64.le_iff_toNat_le.mpr hle)
  omega

theorem mul_eq {a b : UInt64} (hfits : a.toNat * b.toNat ≤ Index.wordMax.toNat) :
    mul a b = some (a * b) := by
  apply word?_eq
  have hmax := Index.toNat_wordMax
  rw [UInt64.toNat_mul, Nat.mod_eq_of_lt (by omega)]
  exact (Int.natCast_mul _ _).symm

theorem div_eq {a b : UInt64} (hdivisor : b ≠ 0) : div a b = some (a / b) := by
  rw [div, if_neg hdivisor]
  apply word?_eq
  rw [UInt64.toNat_div]
  exact (Int.natCast_ediv _ _).symm

theorem mod_eq {a b : UInt64} (hdivisor : b ≠ 0) : mod a b = some (a % b) := by
  rw [mod, if_neg hdivisor]
  apply word?_eq
  rw [UInt64.toNat_mod]
  exact (Int.natCast_emod _ _).symm

/-! ## Indices -/

def lap (capacity : UInt64) : Option UInt64 :=
  if capacity = 0 then
    some 0
  else do
    let laps ← div Index.wordMax capacity
    mul laps capacity

def next (index lap : UInt64) : Option UInt64 := do
  let later ← add index 1
  return if later = lap then 0 else later

def span (producer consumer lap : UInt64) : Option UInt64 :=
  if consumer ≤ producer then
    sub producer consumer
  else do
    let rest ← sub lap consumer
    add rest producer

/-- The span is computed only for indices that lie on the lap. -/
def inRange (producer consumer lap capacity : UInt64) : Option Bool :=
  if producer < lap then
    if consumer < lap then do
      let held ← span producer consumer lap
      return held < capacity
    else some false
  else some false

theorem lap_eq (capacity : UInt64) : lap capacity = some (Index.lap capacity) := by
  unfold lap Index.lap
  split
  · rfl
  · next hcapacity =>
    rw [div_eq hcapacity]
    apply mul_eq
    rw [UInt64.toNat_div]
    exact Nat.div_mul_le_self _ _

theorem next_eq {index lap : UInt64} (hindex : index < lap) :
    next index lap = some (Index.next index lap) := by
  rw [UInt64.lt_iff_toNat_lt] at hindex
  have hlap := lap.toNat_lt
  have hmax := Index.toNat_wordMax
  have hlater : add index 1 = some (index + 1) :=
    add_eq (by rw [UInt64.toNat_one]; omega)
  rw [next, hlater]
  rfl

theorem span_eq {producer consumer lap : UInt64} (hproducer : producer < lap)
    (hconsumer : consumer < lap) :
    span producer consumer lap = some (Index.span producer consumer lap) := by
  rw [UInt64.lt_iff_toNat_lt] at hproducer hconsumer
  have hlap := lap.toNat_lt
  have hmax := Index.toNat_wordMax
  unfold span Index.span
  split
  · next hle => exact sub_eq (UInt64.le_iff_toNat_le.mp hle)
  · next hlt =>
    rw [UInt64.le_iff_toNat_le] at hlt
    have hrest : (lap - consumer).toNat = lap.toNat - consumer.toNat :=
      UInt64.toNat_sub_of_le _ _ (UInt64.le_iff_toNat_le.mpr (by omega))
    rw [sub_eq (by omega)]
    exact add_eq (by omega)

/-- Off the lap the span may be no number: the index is further on than the lap is long. -/
example : span 0 5 3 = none := by decide

theorem inRange_eq (producer consumer lap capacity : UInt64) :
    inRange producer consumer lap capacity =
      some (Index.inRange producer consumer lap capacity) := by
  unfold inRange Index.inRange
  by_cases hproducer : producer < lap
  · by_cases hconsumer : consumer < lap
    · rw [if_pos hproducer, if_pos hconsumer, span_eq hproducer hconsumer]
      simp [hproducer, hconsumer]
    · simp [hproducer, hconsumer]
  · simp [hproducer]

/-! ## Slots -/

section

variable {α : Type} (slots : Slots α)

def slotOf (index : UInt64) : Option UInt64 := mod index slots.capacity

def read (index : UInt64) : Option α := do
  let slot ← slotOf slots index
  slots.cells[slot.toNat]?

def write (index : UInt64) (item : α) : Option (Slots α) := do
  let slot ← slotOf slots index
  if hslot : slot.toNat < slots.cells.size then
    return {
      cells := slots.cells.set slot.toNat item hslot
      size_lt := by simpa using slots.size_lt
      size_pos := by simpa using slots.size_pos }
  else none

theorem slotOf_eq (index : UInt64) : slotOf slots index = some (slots.slotOf index) := by
  apply mod_eq
  intro hzero
  have hsize := slots.toNat_capacity
  have hpos := slots.size_pos
  rw [hzero, UInt64.toNat_zero] at hsize
  omega

theorem read_eq (index : UInt64) : read slots index = some (slots.read index) := by
  have hslot := slots.toNat_slotOf_lt index
  rw [read, slotOf_eq]
  exact Array.getElem?_eq_getElem hslot

theorem write_eq (index : UInt64) (item : α) :
    write slots index item = some (slots.write index item) := by
  have hslot := slots.toNat_slotOf_lt index
  rw [write, slotOf_eq]
  simp only [Option.bind_eq_bind, Option.bind_some, dif_pos hslot]
  rfl

end

end SpscRing.Exact
