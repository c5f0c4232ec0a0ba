/-!
# Durations

Spans of time in whole nanoseconds, up to the largest that a 64-bit count of
seconds and nine decimals can hold. Sums stop at that limit and differences
stop at zero.
-/

namespace SpscRing

namespace Duration

def nanosPerSec : Nat := 1000000000

/-- The length of the largest duration in nanoseconds. -/
def maxNanos : Nat := 18446744073709551616 * nanosPerSec - 1

end Duration

structure Duration where
  nanos : Nat
  nanos_le : nanos ≤ Duration.maxNanos
  deriving DecidableEq, Repr

namespace Duration

@[ext] theorem ext {d e : Duration} (hnanos : d.nanos = e.nanos) : d = e := by
  cases d
  cases e
  cases hnanos
  rfl

/-- The given number of nanoseconds, or the largest duration if that is less. -/
def ofNanos (nanos : Nat) : Duration :=
  ⟨min nanos maxNanos, Nat.min_le_right _ _⟩

def ofParts (secs nanos : Nat) : Duration := ofNanos (secs * nanosPerSec + nanos)

def ofMillis (millis : Nat) : Duration := ofNanos (millis * 1000000)

def zero : Duration := ofNanos 0

instance : Inhabited Duration := ⟨zero⟩

def secs (d : Duration) : Nat := d.nanos / nanosPerSec

def subsecNanos (d : Duration) : Nat := d.nanos % nanosPerSec

def isZero (d : Duration) : Bool := d.nanos == 0

/-- The sum, or the largest duration if that is less. -/
def add (d e : Duration) : Duration := ofNanos (d.nanos + e.nanos)

/-- The difference, or zero where `e` is the longer one. -/
def sub (d e : Duration) : Duration :=
  ⟨d.nanos - e.nanos, Nat.le_trans (Nat.sub_le _ _) d.nanos_le⟩

def double (d : Duration) : Duration := ofNanos (2 * d.nanos)

instance : Add Duration := ⟨add⟩
instance : Sub Duration := ⟨sub⟩
instance : LE Duration := ⟨fun d e => d.nanos ≤ e.nanos⟩
instance : LT Duration := ⟨fun d e => d.nanos < e.nanos⟩
instance (d e : Duration) : Decidable (d ≤ e) := inferInstanceAs (Decidable (d.nanos ≤ e.nanos))
instance (d e : Duration) : Decidable (d < e) := inferInstanceAs (Decidable (d.nanos < e.nanos))
instance : Min Duration := ⟨fun d e => if d ≤ e then d else e⟩

theorem le_def {d e : Duration} : d ≤ e ↔ d.nanos ≤ e.nanos := Iff.rfl

theorem lt_def {d e : Duration} : d < e ↔ d.nanos < e.nanos := Iff.rfl

@[simp] theorem nanos_ofNanos (n : Nat) : (ofNanos n).nanos = min n maxNanos := rfl

@[simp] theorem nanos_zero : zero.nanos = 0 := by
  simp [zero]

@[simp] theorem nanos_add (d e : Duration) :
    (d + e).nanos = min (d.nanos + e.nanos) maxNanos := rfl

@[simp] theorem nanos_sub (d e : Duration) : (d - e).nanos = d.nanos - e.nanos := rfl

@[simp] theorem nanos_double (d : Duration) :
    d.double.nanos = min (2 * d.nanos) maxNanos := rfl

@[simp] theorem nanos_min (d e : Duration) : (min d e).nanos = min d.nanos e.nanos := by
  have hmin : min d e = if d.nanos ≤ e.nanos then d else e := rfl
  rw [hmin, Nat.min_def]
  split <;> rfl

theorem isZero_iff {d : Duration} : d.isZero = true ↔ d.nanos = 0 := by
  simp [isZero]

theorem secs_subsecNanos (d : Duration) : d.secs * nanosPerSec + d.subsecNanos = d.nanos := by
  unfold secs subsecNanos
  rw [Nat.mul_comm]
  exact Nat.div_add_mod _ _

theorem subsecNanos_lt (d : Duration) : d.subsecNanos < nanosPerSec :=
  Nat.mod_lt _ (by decide)

theorem ofParts_secs_subsecNanos (d : Duration) : ofParts d.secs d.subsecNanos = d := by
  ext
  rw [ofParts, secs_subsecNanos, nanos_ofNanos]
  exact Nat.min_eq_left d.nanos_le

end Duration

end SpscRing
