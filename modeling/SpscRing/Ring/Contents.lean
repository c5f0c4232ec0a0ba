import SpscRing.Ring.Transfer
/-!
# What a ring holds

The items of a ring, oldest first, as a list: the meaning of its memory and its two
indices. Accepting an item appends it to the list, and releasing or dropping one takes
the head off.
-/

namespace SpscRing.Ring

/-- The items held, oldest first: those in the slots of the indices from the
consumer's up to the producer's, on the lap. -/
def contents {α : Type} (ring : Ring α) : List α :=
  match ring.storage with
  | .lent slots =>
    (List.range ring.occupancy.toNat).map fun i =>
      slots.read (Index.shift ring.consumer ring.lap i)
  | _ => []

theorem occupancy_of_inRange {α : Type} {ring : Ring α} (hrange : ring.inRange = true) :
    ring.occupancy = ring.span := by
  simp [occupancy_eq_ite, hrange]

theorem contents_of_inRange {α : Type} {ring : Ring α} {slots : Slots α}
    (hslots : ring.storage = .lent slots) (hrange : ring.inRange = true) :
    ring.contents = (List.range ring.span.toNat).map fun i =>
      slots.read (Index.shift ring.consumer ring.lap i) := by
  simp [contents, hslots, occupancy_of_inRange hrange]

theorem length_contents {α : Type} (ring : Ring α) :
    ring.contents.length = ring.occupancy.toNat := by
  by_cases hrange : ring.inRange = true
  · obtain ⟨slots, hslots⟩ := exists_slots_of_inRange hrange
    simp [contents_of_inRange hslots hrange, occupancy_of_inRange hrange]
  · have hzero : ring.occupancy = 0 := by simp [occupancy_eq_ite, hrange]
    unfold contents
    split <;> simp [hzero]

theorem toNat_capacity_of_slots {α : Type} {ring : Ring α} {slots : Slots α}
    (hslots : ring.storage = .lent slots) : ring.capacity.toNat = slots.cells.size := by
  rw [capacity, hslots]
  exact slots.toNat_capacity

theorem capacity_pos_of_slots {α : Type} {ring : Ring α} {slots : Slots α}
    (hslots : ring.storage = .lent slots) : 0 < ring.capacity.toNat := by
  rw [toNat_capacity_of_slots hslots]
  exact slots.size_pos

/-- Two indices at different distances from the consumer's, less than a capacity
apart, have different slots. -/
theorem slotOf_shift_ne {α : Type} {ring : Ring α} {slots : Slots α}
    (hslots : ring.storage = .lent slots) {near far : Nat} (hlt : near < far)
    (hclose : far < near + slots.cells.size) :
    slots.slotOf (Index.shift ring.consumer ring.lap near) ≠
      slots.slotOf (Index.shift ring.consumer ring.lap far) := by
  have hcapacity := toNat_capacity_of_slots hslots
  have hpos := capacity_pos_of_slots hslots
  rw [ne_eq, ← UInt64.toNat_inj, Slots.toNat_slotOf, Slots.toNat_slotOf, ← hcapacity, lap,
    Index.toNat_shift_mod hpos, Index.toNat_shift_mod hpos]
  intro heq
  have hdvd : ring.capacity.toNat ∣ far - near := by
    have hsub := Nat.sub_mod_eq_zero_of_mod_eq heq.symm
    rw [Nat.add_sub_add_left] at hsub
    exact Nat.dvd_of_mod_eq_zero hsub
  have hle := Nat.le_of_dvd (by omega) hdvd
  omega

theorem slotOf_shift_ne_producer {α : Type} {ring : Ring α} {slots : Slots α}
    (hslots : ring.storage = .lent slots) (hrange : ring.inRange = true) {place : Nat}
    (hplace : place < ring.span.toNat) :
    slots.slotOf (Index.shift ring.consumer ring.lap place) ≠ slots.slotOf ring.producer := by
  obtain ⟨hproducer, hconsumer, hspan⟩ := inRange_iff.mp hrange
  rw [UInt64.lt_iff_toNat_lt, toNat_capacity_of_slots hslots] at hspan
  have hne := slotOf_shift_ne hslots hplace (by omega)
  rwa [show Index.shift ring.consumer ring.lap ring.span.toNat = ring.producer from
    Index.shift_span hproducer hconsumer] at hne

/-- Accepting an item appends it, as long as a slot stays free. -/
theorem contents_accept {α : Type} {ring : Ring α} (hrange : ring.inRange = true)
    (hroom : ring.span.toNat + 1 < ring.capacity.toNat) (item : α) :
    (ring.accept item).ring.inRange = true ∧
      (ring.accept item).ring.contents = ring.contents ++ [item] := by
  obtain ⟨slots, hslots⟩ := exists_slots_of_inRange hrange
  obtain ⟨hproducer, hconsumer, hspan⟩ := inRange_iff.mp hrange
  have hcapacity : (ring.accept item).ring.capacity = ring.capacity := by
    simp [accept, capacity]
  have hlap : (ring.accept item).ring.lap = ring.lap := by
    rw [lap, hcapacity, lap]
  have hpos : 0 < ring.capacity.toNat := by omega
  have hle : ring.capacity.toNat ≤ ring.lap.toNat := Index.le_toNat_lap hpos
  have hnext : (ring.accept item).ring.span.toNat = ring.span.toNat + 1 := by
    rw [span, hlap]
    exact Index.toNat_span_next_left hproducer hconsumer (Nat.lt_of_lt_of_le hroom hle)
  have hstored : (ring.accept item).ring.storage = .lent (slots.write ring.producer item) := by
    simp [accept, hslots, Storage.write]
  have hafter : (ring.accept item).ring.inRange = true := by
    rw [inRange_iff, hlap, hcapacity]
    refine ⟨Index.next_lt hproducer, hconsumer, ?_⟩
    rw [UInt64.lt_iff_toNat_lt, hnext]
    exact hroom
  refine ⟨hafter, ?_⟩
  rw [contents_of_inRange hstored hafter, contents_of_inRange hslots hrange, hnext, hlap,
    List.range_succ, List.map_append]
  congr 1
  · apply List.map_congr_left
    intro place hplace
    have hne := slotOf_shift_ne_producer hslots hrange (List.mem_range.mp hplace)
    rw [Slots.read_write]
    exact if_neg (Ne.symm hne)
  · have hlast : Index.shift (ring.accept item).ring.consumer ring.lap ring.span.toNat =
        ring.producer := Index.shift_span hproducer hconsumer
    simp [hlast, Slots.read_write]

/-- Moving the consumer's index on takes the oldest item off. -/
theorem contents_release {α : Type} {ring : Ring α} (hrange : ring.inRange = true)
    (hsome : 0 < ring.span.toNat) :
    ring.release.inRange = true ∧ ring.release.contents = ring.contents.tail := by
  obtain ⟨slots, hslots⟩ := exists_slots_of_inRange hrange
  obtain ⟨hproducer, hconsumer, hspan⟩ := inRange_iff.mp hrange
  rw [release_eq]
  generalize hreleased : ({ ring with consumer := Index.next ring.consumer ring.lap } : Ring α) =
    released
  have hlap : released.lap = ring.lap := by
    subst hreleased
    rfl
  have hless : released.span.toNat = ring.span.toNat - 1 := by
    subst hreleased
    exact Index.toNat_span_next_right hproducer hconsumer hsome
  have hafter : released.inRange = true := by
    subst hreleased
    refine inRange_iff.mpr ⟨hproducer, Index.next_lt hconsumer, ?_⟩
    rw [UInt64.lt_iff_toNat_lt] at hspan ⊢
    rw [hless]
    exact Nat.lt_of_le_of_lt (Nat.sub_le _ _) hspan
  have hstored : released.storage = .lent slots := by
    subst hreleased
    exact hslots
  refine ⟨hafter, ?_⟩
  obtain ⟨count, hcount⟩ := Nat.exists_eq_succ_of_ne_zero (Nat.pos_iff_ne_zero.mp hsome)
  rw [contents_of_inRange hstored hafter, contents_of_inRange hslots hrange, hless, hlap, hcount,
    List.range_succ_eq_map, List.map_cons, List.tail_cons, List.map_map]
  apply List.map_congr_left
  intro place _
  subst hreleased
  exact congrArg slots.read (Index.shift_next hconsumer place)

theorem head?_contents {α : Type} {ring : Ring α} {slots : Slots α}
    (hslots : ring.storage = .lent slots) (hrange : ring.inRange = true)
    (hsome : 0 < ring.span.toNat) : ring.contents.head? = some (slots.read ring.consumer) := by
  obtain ⟨_, hconsumer, _⟩ := inRange_iff.mp hrange
  obtain ⟨count, hcount⟩ := Nat.exists_eq_succ_of_ne_zero (Nat.pos_iff_ne_zero.mp hsome)
  rw [contents_of_inRange hslots hrange, hcount, List.range_succ_eq_map, List.map_cons,
    List.head?_cons, Index.shift_zero hconsumer]

/-- So many places behind the slot of the oldest item is the slot of the index as many items
on, even if that has gone round the lap. -/
theorem slotOf_slotOf_add {α : Type} {ring : Ring α} {slots : Slots α}
    (hslots : ring.storage = .lent slots) {offset : UInt64}
    (hoffset : offset.toNat < slots.cells.size) :
    slots.slotOf (slots.slotOf ring.consumer + offset) =
      slots.slotOf (Index.shift ring.consumer ring.lap offset.toNat) := by
  have hcapacity := toNat_capacity_of_slots hslots
  have hpos := capacity_pos_of_slots hslots
  have hfirst := slots.toNat_slotOf_lt ring.consumer
  have hsize := slots.size_lt
  have hsum : (slots.slotOf ring.consumer + offset).toNat =
      (slots.slotOf ring.consumer).toNat + offset.toNat := by
    rw [UInt64.toNat_add]
    exact Nat.mod_eq_of_lt (by omega)
  rw [← UInt64.toNat_inj, Slots.toNat_slotOf, Slots.toNat_slotOf, hsum, Slots.toNat_slotOf,
    Nat.mod_add_mod, ← hcapacity, lap, Index.toNat_shift_mod hpos]

/-- Peeking reads the slot that a remove would read after as many removes as there are
items in front. -/
theorem read_slotOf_add {α : Type} {ring : Ring α} {slots : Slots α}
    (hslots : ring.storage = .lent slots) {offset : UInt64}
    (hoffset : offset.toNat < slots.cells.size) :
    slots.read (slots.slotOf ring.consumer + offset) =
      slots.read (Index.shift ring.consumer ring.lap offset.toNat) := by
  simp only [Slots.read, slotOf_slotOf_add hslots hoffset]

theorem itemAt_of_inRange {α : Type} {ring : Ring α} (hrange : ring.inRange = true)
    (offset : UInt64) :
    ring.itemAt offset =
      match ring.contents[offset.toNat]? with
      | some item => .ok item
      | none => .error .badOffset := by
  obtain ⟨slots, hslots⟩ := exists_slots_of_inRange hrange
  obtain ⟨_, _, hspan⟩ := inRange_iff.mp hrange
  rw [UInt64.lt_iff_toNat_lt, toNat_capacity_of_slots hslots] at hspan
  by_cases hoffset : offset.toNat < ring.span.toNat
  · have hread := read_slotOf_add hslots (Nat.lt_trans hoffset hspan)
    have hin : ¬ ring.span ≤ offset := by
      rw [UInt64.le_iff_toNat_le]
      omega
    simp [itemAt, contents_of_inRange hslots hrange, hslots, Storage.slots?, hrange, hin, hoffset,
      hread]
  · have hout : ring.span ≤ offset := by
      rw [UInt64.le_iff_toNat_le]
      omega
    have hlength : ring.contents.length ≤ offset.toNat := by
      rw [length_contents, occupancy_of_inRange hrange]
      omega
    simp [itemAt, hslots, Storage.slots?, hrange, hout, List.getElem?_eq_none hlength]

end SpscRing.Ring
