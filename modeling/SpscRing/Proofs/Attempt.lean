import SpscRing.Ring.Contents
/-!
# How attempts end

An attempt to insert or to remove an item ends in one of a few ways. Each way is
listed here once, with the state it needs and all that it leaves behind, so that
later proofs take an attempt apart by cases and never open its definition.
-/

namespace SpscRing.Ring

/-! ## The state with its counters or its latch changed -/

@[simp] theorem inRange_count {α : Type} (ring : Ring α) (change : Counters → Counters) :
    (ring.count change).inRange = ring.inRange := rfl

@[simp] theorem contents_count {α : Type} (ring : Ring α) (change : Counters → Counters) :
    (ring.count change).contents = ring.contents := rfl

@[simp] theorem storage_count {α : Type} (ring : Ring α) (change : Counters → Counters) :
    (ring.count change).storage = ring.storage := rfl

@[simp] theorem storage_release {α : Type} (ring : Ring α) :
    ring.release.storage = ring.storage := by
  rw [release_eq]

@[simp] theorem overwrite_release {α : Type} (ring : Ring α) :
    ring.release.overwrite = ring.overwrite := by
  rw [release_eq]

@[simp] theorem pacing_release {α : Type} (ring : Ring α) :
    ring.release.pacing = ring.pacing := by
  rw [release_eq]

@[simp] theorem capacity_release {α : Type} (ring : Ring α) :
    ring.release.capacity = ring.capacity := by
  rw [capacity, storage_release, capacity]

@[simp] theorem lap_release {α : Type} (ring : Ring α) : ring.release.lap = ring.lap := by
  rw [lap, capacity_release, lap]

@[simp] theorem producer_release {α : Type} (ring : Ring α) :
    ring.release.producer = ring.producer := by
  rw [release_eq]

theorem consumer_release {α : Type} (ring : Ring α) :
    ring.release.consumer = Index.next ring.consumer ring.lap := by
  rw [release_eq]

@[simp] theorem result_accept {α : Type} (ring : Ring α) (item : α) :
    (ring.accept item).result = .ok () := rfl

@[simp] theorem overwrite_accept {α : Type} (ring : Ring α) (item : α) :
    (ring.accept item).ring.overwrite = ring.overwrite := rfl

@[simp] theorem pacing_accept {α : Type} (ring : Ring α) (item : α) :
    (ring.accept item).ring.pacing = ring.pacing := rfl

@[simp] theorem capacity_accept {α : Type} (ring : Ring α) (item : α) :
    (ring.accept item).ring.capacity = ring.capacity :=
  Storage.capacity_write _ _ _

@[simp] theorem lap_accept {α : Type} (ring : Ring α) (item : α) :
    (ring.accept item).ring.lap = ring.lap := by
  rw [lap, capacity_accept, lap]

/-! ## What a ring in order looks like -/

theorem slots?_of_inRange {α : Type} {ring : Ring α} (hrange : ring.inRange = true)
    (fault : Fault) : ring.storage.slots? ≠ .error fault := by
  obtain ⟨slots, hslots⟩ := exists_slots_of_inRange hrange
  rw [hslots]
  intro hfault
  cases hfault

theorem span_lt_size {α : Type} {ring : Ring α} {slots : Slots α}
    (hslots : ring.storage = .lent slots) (hrange : ring.inRange = true) :
    ring.span.toNat < slots.cells.size := by
  obtain ⟨_, _, hspan⟩ := inRange_iff.mp hrange
  rwa [UInt64.lt_iff_toNat_lt, toNat_capacity_of_slots hslots] at hspan

theorem length_contents_of_inRange {α : Type} {ring : Ring α} (hrange : ring.inRange = true) :
    ring.contents.length = ring.span.toNat := by
  rw [length_contents, occupancy_of_inRange hrange]

theorem span_release {α : Type} {ring : Ring α} (hrange : ring.inRange = true)
    (hsome : 0 < ring.span.toNat) : ring.release.span.toNat = ring.span.toNat - 1 := by
  obtain ⟨hreleased, hcontents⟩ := contents_release hrange hsome
  rw [← length_contents_of_inRange hreleased, hcontents, List.length_tail,
    length_contents_of_inRange hrange]

theorem contents_eq_cons {α : Type} {ring : Ring α} {slots : Slots α}
    (hslots : ring.storage = .lent slots) (hrange : ring.inRange = true)
    (hsome : 0 < ring.span.toNat) :
    ring.contents = slots.read ring.consumer :: ring.contents.tail := by
  obtain ⟨later, hlater⟩ := List.head?_eq_some_iff.mp (head?_contents hslots hrange hsome)
  rw [hlater, List.tail_cons]

theorem evict_eq_release {α : Type} (ring : Ring α) (slots : Slots α) :
    ring.evict slots =
      (ring.release, [.evicted (slots.read ring.consumer) (slots.slotOf ring.consumer)]) := by
  rw [evict_eq, release_eq]

/-! ## Attempts -/

/-- The ways in which an attempt to insert can end. -/
inductive Offered {α : Type} (ring : Ring α) (item : α) (overwrite : Bool) :
    Outcome α (Except Fault Unit) → Prop where
  /-- There are no slots. -/
  | inert {fault : Fault} (hslots : ring.storage.slots? = .error fault) :
      Offered ring item overwrite (.fail ring fault [])
  | corrupted {slots : Slots α} (hslots : ring.storage = .lent slots)
      (hrange : ring.inRange = false) :
      Offered ring item overwrite
        (.fail ring .corrupted
          [.outOfRange .insert ring.producer ring.consumer slots.capacity])
  /-- The ring is full and the oldest item may not be dropped, or there is none. -/
  | full {slots : Slots α} (hslots : ring.storage = .lent slots) (hrange : ring.inRange = true)
      (hfull : ring.span.toNat + 1 = slots.cells.size)
      (hmode : overwrite = false ∨ slots.cells.size = 1) :
      Offered ring item overwrite
        (.fail (ring.count .countOverflow) .full [.rejectedFull slots.capacity])
  /-- The ring was full, and the oldest item made room. -/
  | replaced {slots : Slots α} (hslots : ring.storage = .lent slots)
      (hrange : ring.inRange = true) (hfull : ring.span.toNat + 1 = slots.cells.size)
      (hmode : overwrite = true) (hmany : 2 ≤ slots.cells.size) :
      Offered ring item overwrite
        ((ring.release.accept item).after
          [.evicted (slots.read ring.consumer) (slots.slotOf ring.consumer)])
  | accepted {slots : Slots α} (hslots : ring.storage = .lent slots)
      (hrange : ring.inRange = true) (hroom : ring.span.toNat + 1 < slots.cells.size) :
      Offered ring item overwrite (ring.accept item)

theorem offered {α : Type} (ring : Ring α) (item : α) (overwrite : Bool) :
    Offered ring item overwrite (ring.offer item overwrite) := by
  unfold offer
  cases hstorage : ring.storage with
  | absent | noCells => exact .inert (by rw [hstorage]; rfl)
  | lent slots =>
      simp only [Storage.slots?]
      have hpos := slots.size_pos
      cases hrange : ring.inRange with
      | false => exact .corrupted hstorage hrange
      | true =>
          have hspan := span_lt_size hstorage hrange
          simp only [Bool.not_true, Bool.false_eq_true, if_false, ← UInt64.toNat_inj,
            slots.toNat_capacity_sub_one]
          split
          · next hfull =>
            split
            · next hmode =>
              simp only [Bool.or_eq_true, Bool.not_eq_true', beq_iff_eq,
                slots.capacity_eq_one_iff] at hmode
              exact .full hstorage hrange (by omega) hmode
            · next hmode =>
              simp only [Bool.or_eq_true, Bool.not_eq_true', beq_iff_eq, slots.capacity_eq_one_iff,
                not_or, Bool.not_eq_false] at hmode
              rw [evict_eq_release]
              exact .replaced hstorage hrange (by omega) hmode.1 (by omega)
          · next hroom => exact .accepted hstorage hrange (by omega)

inductive Taken {α : Type} (ring : Ring α) : Outcome α (Except Fault α) → Prop where
  | inert {fault : Fault} (hslots : ring.storage.slots? = .error fault) :
      Taken ring (.fail ring fault [])
  | corrupted {slots : Slots α} (hslots : ring.storage = .lent slots)
      (hrange : ring.inRange = false) :
      Taken ring
        (.fail ring .corrupted
          [.outOfRange .remove ring.producer ring.consumer slots.capacity])
  | empty {slots : Slots α} (hslots : ring.storage = .lent slots) (hrange : ring.inRange = true)
      (hnone : ring.span.toNat = 0) :
      Taken ring (.fail (ring.count .countUnderflow) .empty [.rejectedEmpty])
  | delivered {slots : Slots α} (hslots : ring.storage = .lent slots)
      (hrange : ring.inRange = true) (hsome : 0 < ring.span.toNat) :
      Taken ring
        ⟨.ok (slots.read ring.consumer), ring.release.count .countRemove,
          [.delivered (slots.read ring.consumer)]⟩

theorem taken {α : Type} (ring : Ring α) : Taken ring ring.take := by
  unfold take
  cases hstorage : ring.storage with
  | absent | noCells => exact .inert (by rw [hstorage]; rfl)
  | lent slots =>
      simp only [Storage.slots?]
      cases hrange : ring.inRange with
      | false => exact .corrupted hstorage hrange
      | true =>
          obtain ⟨hproducer, hconsumer, _⟩ := inRange_iff.mp hrange
          have hzero : ring.span.toNat = 0 ↔ ring.consumer = ring.producer :=
            Index.toNat_span_eq_zero_iff hproducer hconsumer
          simp only [Bool.not_true, Bool.false_eq_true, if_false]
          split
          · next hmeet => exact .empty hstorage hrange (hzero.mpr hmeet)
          · next hapart =>
            have hsome : ring.span.toNat ≠ 0 := fun hnone => hapart (hzero.mp hnone)
            exact .delivered hstorage hrange (Nat.pos_of_ne_zero hsome)

inductive Checked {α : Type} (ring : Ring α) : Outcome α (Except Fault Unit) → Prop where
  | inert {fault : Fault} (hslots : ring.storage.slots? = .error fault) :
      Checked ring (.fail ring fault [])
  | corrupted {slots : Slots α} (hslots : ring.storage = .lent slots)
      (hrange : ring.inRange = false) :
      Checked ring
        (.fail ring .corrupted
          [.outOfRange .check ring.producer ring.consumer slots.capacity])
  | sound (hrange : ring.inRange = true) : Checked ring ⟨.ok (), ring, []⟩

theorem checked {α : Type} (ring : Ring α) : Checked ring ring.integrity := by
  unfold integrity
  cases hstorage : ring.storage with
  | absent | noCells => exact .inert (by rw [hstorage]; rfl)
  | lent slots =>
      simp only [Storage.slots?]
      cases hrange : ring.inRange with
      | false => exact .corrupted hstorage hrange
      | true => exact .sound hrange

inductive Paced {α : Type} (ring : Ring α) (pacing : Pacing) (line : UInt32) :
    Outcome α (Except Fault Unit) → Prop where
  | installed (hvalid : pacing.validate = .ok ()) :
      Paced ring pacing line ⟨.ok (), { ring with pacing := pacing }, [.pacingSet pacing]⟩
  | refused {fault : Fault} (hinvalid : pacing.validate = .error fault) :
      Paced ring pacing line
        ⟨.error fault, { ring with latch := .ofFailure .setPacing fault line },
          [.failed .setPacing fault line]⟩

theorem paced {α : Type} (ring : Ring α) (pacing : Pacing) (line : UInt32) :
    Paced ring pacing line (ring.setPacing pacing line) := by
  unfold setPacing
  split
  · next hvalid => exact .installed hvalid
  · next hinvalid => exact .refused hinvalid

theorem integrity_of_inRange {α : Type} {ring : Ring α} (hrange : ring.inRange = true) :
    ring.integrity = ⟨.ok (), ring, []⟩ := by
  obtain ⟨slots, hslots⟩ := exists_slots_of_inRange hrange
  simp [integrity, hslots, Storage.slots?, hrange]

theorem room_release {α : Type} {ring : Ring α} {slots : Slots α}
    (hslots : ring.storage = .lent slots) (hrange : ring.inRange = true)
    (hfull : ring.span.toNat + 1 = slots.cells.size) (hmany : 2 ≤ slots.cells.size) :
    ring.release.span.toNat + 1 < ring.release.capacity.toNat := by
  rw [span_release hrange (by omega), capacity_release, toNat_capacity_of_slots hslots]
  omega

/-- An insert that drops the oldest item replaces it by the new one at the other end. -/
theorem contents_replace {α : Type} {ring : Ring α} {slots : Slots α}
    (hslots : ring.storage = .lent slots) (hrange : ring.inRange = true)
    (hfull : ring.span.toNat + 1 = slots.cells.size) (hmany : 2 ≤ slots.cells.size) (item : α) :
    (ring.release.accept item).ring.inRange = true ∧
      (ring.release.accept item).ring.contents = ring.contents.tail ++ [item] := by
  have hsome : 0 < ring.span.toNat := by omega
  obtain ⟨hreleased, hcontents⟩ := contents_release hrange hsome
  rw [← hcontents]
  exact contents_accept hreleased (room_release hslots hrange hfull hmany) item

end SpscRing.Ring
