import SpscRing.Proofs.Disguise
/-!
# Attempts in either mode

The mode of a ring decides whether an insert that finds it full drops the oldest item, and
nothing else. The index of an item that goes out is swapped in one mode and simply stored in
the other, with the same ring left behind.
-/

namespace SpscRing

def Ring.inMode {α : Type} (mode : Bool) (ring : Ring α) : Ring α := { ring with overwrite := mode }

def Outcome.inMode {α β : Type} (mode : Bool) (outcome : Outcome α β) : Outcome α β :=
  { outcome with ring := outcome.ring.inMode mode }

def Disguise.inMode (mode : Bool) : Disguise where
  overwrite _ := mode
  latch := id
  recorder := id
  record_recorder _ _ := rfl

/-! ## Inserts that meet a full ring -/

/-- Whether an event tells of an insert that found the ring full while it held an item that
could have been dropped. -/
def Event.meetsFull {α : Type} : Event α → Bool
  | evicted _ _ => true
  | rejectedFull capacity => decide (2 ≤ capacity.toNat)
  | _ => false

def NeverFull {α : Type} (events : List (Event α)) : Prop :=
  ∀ event ∈ events, event.meetsFull = false

instance {α : Type} (events : List (Event α)) : Decidable (NeverFull events) :=
  inferInstanceAs (Decidable (∀ event ∈ events, _))

theorem neverFull_append {α : Type} {earlier later : List (Event α)} :
    NeverFull (earlier ++ later) ↔ NeverFull earlier ∧ NeverFull later :=
  List.forall_mem_append

namespace Ring

variable {α : Type} (ring : Ring α) (item : α)

theorem neverFull_offer (mode : Bool) :
    NeverFull (ring.offer item mode).events ↔
      ¬(2 ≤ ring.capacity.toNat ∧ ring.occupancy.toNat + 1 = ring.capacity.toNat) := by
  have hheld : ring.inRange = true → ring.occupancy.toNat = ring.span.toNat := fun hrange =>
    congrArg UInt64.toNat (occupancy_of_inRange hrange)
  have hend := offered ring item mode
  generalize ring.offer item mode = outcome at hend ⊢
  cases hend with
  | inert hslots =>
      have hnone : ring.capacity = 0 := by
        obtain ⟨hstorage, _⟩ | ⟨hstorage, _⟩ := Storage.inert_of_slots? hslots
        · rw [capacity, hstorage]
          rfl
        · rw [capacity, hstorage]
          rfl
      refine iff_of_true (List.forall_mem_nil _) ?_
      rw [hnone, UInt64.toNat_zero]
      omega
  | corrupted _ hrange =>
      have hnone : ring.occupancy = 0 := by simp [occupancy_eq_ite, hrange]
      refine iff_of_true (List.forall_mem_singleton.mpr rfl) ?_
      rw [hnone, UInt64.toNat_zero]
      omega
  | @full slots hslots hrange hfull =>
      rw [hheld hrange, toNat_capacity_of_slots hslots, and_iff_left hfull, ← slots.toNat_capacity]
      exact List.forall_mem_singleton.trans decide_eq_false_iff_not
  | replaced hslots hrange hfull _ hmany =>
      rw [hheld hrange, toNat_capacity_of_slots hslots]
      exact iff_of_false (fun hnever => Bool.noConfusion (hnever _ List.mem_cons_self))
        (not_not_intro ⟨hmany, hfull⟩)
  | accepted hslots hrange hroom =>
      rw [hheld hrange, toNat_capacity_of_slots hslots]
      exact iff_of_true (List.forall_mem_singleton.mpr rfl) (by omega)

/-- The mode that an attempt goes by matters only on a full ring. -/
theorem offer_mode (mode other : Bool) (hnever : NeverFull (ring.offer item mode).events) :
    ring.offer item other = ring.offer item mode := by
  rw [neverFull_offer] at hnever
  unfold offer
  cases hstorage : ring.storage with
  | absent | noCells => rfl
  | lent slots =>
      simp only [Storage.slots?]
      cases hrange : ring.inRange with
      | false => rfl
      | true =>
          simp only [Bool.not_true, Bool.false_eq_true, if_false]
          split
          · next hfull =>
            have hone : slots.capacity = 1 := by
              have hpos := slots.size_pos
              have hspan := congrArg UInt64.toNat hfull
              rw [slots.toNat_capacity_sub_one] at hspan
              rw [occupancy_of_inRange hrange, toNat_capacity_of_slots hstorage, hspan] at hnever
              rw [slots.capacity_eq_one_iff]
              omega
            simp only [hone, beq_self_eq_true, Bool.or_true, if_true]
          · rfl

/-! ## Attempts that go by the other mode -/

theorem inMode_offer (mode overwrite other : Bool)
    (hnever : NeverFull (ring.offer item overwrite).events) :
    (ring.inMode mode).offer item other = (ring.offer item overwrite).inMode mode := by
  rw [← ring.offer_mode item overwrite other hnever]
  exact ring.disguised_offer (.inMode mode) item other

/-- The two ways of taking an item off leave the same behind. -/
theorem inMode_take (mode : Bool) : (ring.inMode mode).take = ring.take.inMode mode :=
  ring.disguised_take (.inMode mode)

theorem inMode_integrity (mode : Bool) :
    (ring.inMode mode).integrity = ring.integrity.inMode mode :=
  ring.disguised_integrity (.inMode mode)

end Ring

theorem Outcome.inMode_tracked {α β : Type} {mode : Bool} (outcome : Outcome α (Except Fault β))
    (operation : Operation) (line : UInt32) :
    (outcome.inMode mode).tracked operation line = (outcome.tracked operation line).inMode mode :=
  outcome.disguised_tracked (fun _ => rfl : ∀ latch, (Disguise.inMode mode).latch latch = latch)
    operation line

end SpscRing
