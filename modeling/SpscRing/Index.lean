/-!
# Ring indices

A ring counts items in and items out with two words that run modulo a lap, the
largest multiple of its capacity that a word can hold. As the lap is a multiple of
the capacity, an index names the slot that is its remainder by the capacity, before
and after it has gone round to zero. Counting by laps, and not by the capacity,
keeps an index from coming back to a value soon after it has left it.
-/

namespace SpscRing.Index

def wordMax : UInt64 := 18446744073709551615

/-- The largest multiple of the capacity that fits a word; zero without capacity. -/
def lap (capacity : UInt64) : UInt64 :=
  if capacity = 0 then 0 else wordMax / capacity * capacity

/-- The index after `index`; the last one of a lap is followed by zero. -/
def next (index lap : UInt64) : UInt64 :=
  if index + 1 = lap then 0 else index + 1

/-- How many items lie between two indices: how far the producer's is ahead of the
consumer's, on a lap where it may have gone round already. -/
def span (producer consumer lap : UInt64) : UInt64 :=
  if consumer ≤ producer then producer - consumer else lap - consumer + producer

def inRange (producer consumer lap capacity : UInt64) : Bool :=
  decide (producer < lap) && decide (consumer < lap) &&
    decide (span producer consumer lap < capacity)

def shift (index lap : UInt64) (places : Nat) : UInt64 :=
  .ofNat ((index.toNat + places) % lap.toNat)

theorem toNat_wordMax : wordMax.toNat = 18446744073709551615 := rfl

theorem toNat_pos_of_lt {index lap : UInt64} (hindex : index < lap) : 0 < lap.toNat := by
  rw [UInt64.lt_iff_toNat_lt] at hindex
  omega

theorem toNat_lap (capacity : UInt64) :
    (lap capacity).toNat = wordMax.toNat / capacity.toNat * capacity.toNat := by
  unfold lap
  split
  · next hzero =>
    subst hzero
    simp
  · have hle : wordMax.toNat / capacity.toNat * capacity.toNat ≤ wordMax.toNat :=
      Nat.div_mul_le_self _ _
    simp only [UInt64.toNat_mul, UInt64.toNat_div]
    exact Nat.mod_eq_of_lt (Nat.lt_of_le_of_lt hle (by decide))

theorem dvd_toNat_lap (capacity : UInt64) : capacity.toNat ∣ (lap capacity).toNat := by
  rw [toNat_lap]
  exact Nat.dvd_mul_left _ _

/-- The lap leaves out less than a capacity of the words there are. -/
theorem lt_toNat_lap_add {capacity : UInt64} (hcapacity : 0 < capacity.toNat) :
    wordMax.toNat < (lap capacity).toNat + capacity.toNat := by
  rw [toNat_lap]
  have hmod := Nat.mod_lt wordMax.toNat hcapacity
  have hdiv := Nat.div_add_mod wordMax.toNat capacity.toNat
  rw [Nat.mul_comm] at hdiv
  omega

theorem le_toNat_lap {capacity : UInt64} (hcapacity : 0 < capacity.toNat) :
    capacity.toNat ≤ (lap capacity).toNat := by
  have hpos : 0 < (lap capacity).toNat := by
    have hcap := capacity.toNat_lt
    have hword := toNat_wordMax
    rw [toNat_lap]
    apply Nat.mul_pos _ hcapacity
    apply Nat.div_pos _ hcapacity
    omega
  exact Nat.le_of_dvd hpos (dvd_toNat_lap capacity)

/-- On the lap, the next index is computed without overflow. -/
theorem toNat_next {index lap : UInt64} (hindex : index < lap) :
    (next index lap).toNat = if index.toNat + 1 = lap.toNat then 0 else index.toNat + 1 := by
  rw [UInt64.lt_iff_toNat_lt] at hindex
  have hlap := lap.toNat_lt
  have hsucc : (index + 1).toNat = index.toNat + 1 := by
    rw [UInt64.toNat_add]
    exact Nat.mod_eq_of_lt (by simp; omega)
  unfold next
  simp only [← UInt64.toNat_inj, hsucc]
  split
  · rfl
  · exact hsucc

theorem next_lt {index lap : UInt64} (hindex : index < lap) : next index lap < lap := by
  rw [UInt64.lt_iff_toNat_lt, toNat_next hindex]
  rw [UInt64.lt_iff_toNat_lt] at hindex
  split <;> omega

theorem toNat_span {producer consumer lap : UInt64} (hproducer : producer < lap)
    (hconsumer : consumer < lap) :
    (span producer consumer lap).toNat =
      if consumer.toNat ≤ producer.toNat then producer.toNat - consumer.toNat
      else lap.toNat - consumer.toNat + producer.toNat := by
  rw [UInt64.lt_iff_toNat_lt] at hproducer hconsumer
  have hlap := lap.toNat_lt
  unfold span
  simp only [UInt64.le_iff_toNat_le]
  split
  · next hle => exact UInt64.toNat_sub_of_le _ _ (UInt64.le_iff_toNat_le.mpr hle)
  · rw [UInt64.toNat_add,
      UInt64.toNat_sub_of_le _ _ (UInt64.le_iff_toNat_le.mpr (Nat.le_of_lt hconsumer))]
    exact Nat.mod_eq_of_lt (by omega)

theorem toNat_next_mod {index lap : UInt64} (hindex : index < lap) :
    (next index lap).toNat = (index.toNat + 1) % lap.toNat := by
  rw [toNat_next hindex]
  rw [UInt64.lt_iff_toNat_lt] at hindex
  split
  · next heq =>
    rw [heq]
    exact (Nat.mod_self _).symm
  · exact (Nat.mod_eq_of_lt (by omega)).symm

theorem toNat_span_lt {producer consumer lap : UInt64} (hproducer : producer < lap)
    (hconsumer : consumer < lap) : (span producer consumer lap).toNat < lap.toNat := by
  rw [toNat_span hproducer hconsumer]
  rw [UInt64.lt_iff_toNat_lt] at hproducer hconsumer
  split <;> omega

/-- The span leads from the consumer's index to the producer's. -/
theorem add_span_mod {producer consumer lap : UInt64} (hproducer : producer < lap)
    (hconsumer : consumer < lap) :
    (consumer.toNat + (span producer consumer lap).toNat) % lap.toNat = producer.toNat := by
  rw [toNat_span hproducer hconsumer]
  rw [UInt64.lt_iff_toNat_lt] at hproducer hconsumer
  split
  · rw [Nat.add_sub_cancel' (by omega)]
    exact Nat.mod_eq_of_lt hproducer
  · have hround : consumer.toNat + (lap.toNat - consumer.toNat + producer.toNat) =
        producer.toNat + lap.toNat := by omega
    rw [hround, Nat.add_mod_right]
    exact Nat.mod_eq_of_lt hproducer

/-- One item more between the indices, as long as they do not meet. -/
theorem toNat_span_next_left {producer consumer lap : UInt64} (hproducer : producer < lap)
    (hconsumer : consumer < lap) (hroom : (span producer consumer lap).toNat + 1 < lap.toNat) :
    (span (next producer lap) consumer lap).toNat =
      (span producer consumer lap).toNat + 1 := by
  have hnext : next producer lap < lap := next_lt hproducer
  rw [toNat_span hproducer hconsumer] at hroom
  rw [toNat_span hnext hconsumer, toNat_span hproducer hconsumer, toNat_next hproducer]
  rw [UInt64.lt_iff_toNat_lt] at hproducer hconsumer
  split at hroom <;> split <;> split <;> omega

theorem toNat_span_next_right {producer consumer lap : UInt64} (hproducer : producer < lap)
    (hconsumer : consumer < lap) (hsome : 0 < (span producer consumer lap).toNat) :
    (span producer (next consumer lap) lap).toNat =
      (span producer consumer lap).toNat - 1 := by
  have hnext : next consumer lap < lap := next_lt hconsumer
  rw [toNat_span hproducer hconsumer] at hsome
  rw [toNat_span hproducer hnext, toNat_span hproducer hconsumer, toNat_next hconsumer]
  rw [UInt64.lt_iff_toNat_lt] at hproducer hconsumer
  split at hsome <;> split <;> split <;> omega

theorem toNat_span_eq_zero_iff {producer consumer lap : UInt64} (hproducer : producer < lap)
    (hconsumer : consumer < lap) :
    (span producer consumer lap).toNat = 0 ↔ consumer = producer := by
  rw [toNat_span hproducer hconsumer, ← UInt64.toNat_inj]
  rw [UInt64.lt_iff_toNat_lt] at hproducer hconsumer
  split <;> omega

theorem toNat_shift {index lap : UInt64} (hlap : 0 < lap.toNat) (places : Nat) :
    (shift index lap places).toNat = (index.toNat + places) % lap.toNat := by
  have hmod := Nat.mod_lt (index.toNat + places) hlap
  have hword := lap.toNat_lt
  exact Nat.mod_eq_of_lt (by omega)

theorem shift_zero {index lap : UInt64} (hindex : index < lap) : shift index lap 0 = index := by
  rw [← UInt64.toNat_inj, toNat_shift (toNat_pos_of_lt hindex)]
  exact Nat.mod_eq_of_lt (UInt64.lt_iff_toNat_lt.mp hindex)

theorem shift_next {index lap : UInt64} (hindex : index < lap) (places : Nat) :
    shift (next index lap) lap places = shift index lap (places + 1) := by
  have hlap := toNat_pos_of_lt hindex
  rw [← UInt64.toNat_inj, toNat_shift hlap, toNat_shift hlap, toNat_next_mod hindex,
    Nat.mod_add_mod]
  congr 1
  omega

/-- As far on as the span leads from the consumer's index to the producer's. -/
theorem shift_span {producer consumer lap : UInt64} (hproducer : producer < lap)
    (hconsumer : consumer < lap) :
    shift consumer lap (span producer consumer lap).toNat = producer := by
  rw [← UInt64.toNat_inj, toNat_shift (toNat_pos_of_lt hproducer),
    add_span_mod hproducer hconsumer]

/-- Going round the lap does not shift the slots: they follow one another modulo the
capacity. -/
theorem toNat_shift_mod {index capacity : UInt64} (hcapacity : 0 < capacity.toNat)
    (places : Nat) :
    (shift index (lap capacity) places).toNat % capacity.toNat =
      (index.toNat + places) % capacity.toNat := by
  have hlap := le_toNat_lap hcapacity
  rw [toNat_shift (by omega)]
  exact Nat.mod_mod_of_dvd _ (dvd_toNat_lap capacity)

theorem inRange_iff {producer consumer lap capacity : UInt64} :
    inRange producer consumer lap capacity = true ↔
      producer < lap ∧ consumer < lap ∧ span producer consumer lap < capacity := by
  simp [inRange, and_assoc]

end SpscRing.Index
