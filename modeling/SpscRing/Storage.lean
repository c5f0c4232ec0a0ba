import SpscRing.Fault.Basic
import SpscRing.Index
/-!
# Lent memory

A ring owns no memory: its cells belong to a caller who lends them, and gets them
back with whatever was written. A ring may also have been lent nothing, or memory
without cells; only proper slots can be read and written.
-/

namespace SpscRing

/-- Memory that can be lent to a ring: fewer than `2 ^ 60` cells, so that the sum of
two slot numbers is still a word. -/
structure Memory (α : Type) where
  cells : Array α
  size_lt : cells.size < 1152921504606846976

structure Slots (α : Type) extends Memory α where
  size_pos : 0 < cells.size

inductive Storage (α : Type) where
  | absent
  | noCells
  | lent (slots : Slots α)

namespace Memory

instance {α : Type} : Inhabited (Memory α) := ⟨⟨#[], by simp⟩⟩

def capacity {α : Type} (memory : Memory α) : UInt64 := .ofNat memory.cells.size

theorem toNat_capacity {α : Type} (memory : Memory α) :
    memory.capacity.toNat = memory.cells.size := by
  have hsize := memory.size_lt
  exact Nat.mod_eq_of_lt (by omega)

def lend {α : Type} (memory : Memory α) : Storage α :=
  if hpos : 0 < memory.cells.size then .lent ⟨memory, hpos⟩ else .noCells

end Memory

namespace Slots

def slotOf {α : Type} (slots : Slots α) (index : UInt64) : UInt64 := index % slots.capacity

theorem toNat_slotOf {α : Type} (slots : Slots α) (index : UInt64) :
    (slots.slotOf index).toNat = index.toNat % slots.cells.size := by
  rw [slotOf, UInt64.toNat_mod, Memory.toNat_capacity]

/-- Every index names a slot there is. -/
theorem toNat_slotOf_lt {α : Type} (slots : Slots α) (index : UInt64) :
    (slots.slotOf index).toNat < slots.cells.size := by
  rw [toNat_slotOf]
  exact Nat.mod_lt _ slots.size_pos

/-- There is a slot at least, so that the word below the capacity does not wrap. -/
theorem toNat_capacity_sub_one {α : Type} (slots : Slots α) :
    (slots.capacity - 1).toNat = slots.cells.size - 1 := by
  have hpos := slots.size_pos
  have hsize := slots.toNat_capacity
  have hone : (1 : UInt64) ≤ slots.capacity := by
    rw [UInt64.le_iff_toNat_le, hsize]
    exact hpos
  rw [UInt64.toNat_sub_of_le _ _ hone, hsize, UInt64.toNat_one]

theorem capacity_eq_one_iff {α : Type} (slots : Slots α) :
    slots.capacity = 1 ↔ slots.cells.size = 1 := by
  rw [← UInt64.toNat_inj, slots.toNat_capacity, UInt64.toNat_one]

def read {α : Type} (slots : Slots α) (index : UInt64) : α :=
  have hslot := slots.toNat_slotOf_lt index
  slots.cells[(slots.slotOf index).toNat]

def write {α : Type} (slots : Slots α) (index : UInt64) (item : α) : Slots α where
  cells := slots.cells.set (slots.slotOf index).toNat item (slots.toNat_slotOf_lt index)
  size_lt := by simpa using slots.size_lt
  size_pos := by simpa using slots.size_pos

@[simp] theorem size_write {α : Type} (slots : Slots α) (index : UInt64) (item : α) :
    (slots.write index item).cells.size = slots.cells.size := by
  simp [write]

@[simp] theorem capacity_write {α : Type} (slots : Slots α) (index : UInt64) (item : α) :
    (slots.write index item).capacity = slots.capacity := by
  simp [Memory.capacity]

theorem read_write {α : Type} (slots : Slots α) (written index : UInt64) (item : α) :
    (slots.write written item).read index =
      if slots.slotOf written = slots.slotOf index then item else slots.read index := by
  have hslot : (slots.write written item).slotOf index = slots.slotOf index := by
    simp [slotOf]
  simp only [read, hslot]
  simp only [write, Array.getElem_set, UInt64.toNat_inj]

end Slots

namespace Storage

def slots? {α : Type} : Storage α → Except Fault (Slots α)
  | absent => .error .noStorage
  | noCells => .error .emptyStorage
  | lent slots => .ok slots

theorem eq_lent_of_slots? {α : Type} {storage : Storage α} {slots : Slots α}
    (hslots : storage.slots? = .ok slots) : storage = .lent slots := by
  cases storage with
  | lent cells => exact congrArg lent (Except.ok.inj hslots)
  | absent | noCells => cases hslots

theorem inert_of_slots? {α : Type} {storage : Storage α} {fault : Fault}
    (hslots : storage.slots? = .error fault) :
    storage = .absent ∧ fault = .noStorage ∨ storage = .noCells ∧ fault = .emptyStorage := by
  cases storage with
  | absent => exact .inl ⟨rfl, (Except.error.inj hslots).symm⟩
  | noCells => exact .inr ⟨rfl, (Except.error.inj hslots).symm⟩
  | lent slots => cases hslots

def isPresent {α : Type} : Storage α → Bool
  | absent => false
  | _ => true

def capacity {α : Type} : Storage α → UInt64
  | lent slots => slots.capacity
  | _ => 0

def write {α : Type} (index : UInt64) (item : α) : Storage α → Storage α
  | lent slots => .lent (slots.write index item)
  | other => other

def giveBack? {α : Type} : Storage α → Option (Memory α)
  | absent => none
  | noCells => some default
  | lent slots => some slots.toMemory

@[simp] theorem capacity_write {α : Type} (index : UInt64) (item : α) (storage : Storage α) :
    (storage.write index item).capacity = storage.capacity := by
  cases storage <;> simp [write, capacity]

end Storage

end SpscRing
