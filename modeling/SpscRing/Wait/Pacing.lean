import SpscRing.Duration
import SpscRing.Fault.Basic
/-!
# Pacings

How long a waiting side sleeps between two attempts: a first interval that
doubles after every failed retry, up to a cap. A fixed interval is one with itself as cap.
-/

namespace SpscRing

/-- The intervals between the attempts of a wait. -/
structure Pacing where
  interval : Duration
  cap : Duration
  deriving DecidableEq, Repr

namespace Pacing

def defaultInterval : Duration := .ofMillis 1

def fixed (interval : Duration) : Pacing := ⟨interval, interval⟩

def backoff (first cap : Duration) : Pacing := ⟨first, cap⟩

def default : Pacing := fixed defaultInterval

instance : Inhabited Pacing := ⟨default⟩

/-- A pacing can be used when its first interval is not zero, so that it never spins,
and its cap is not below it. -/
def Valid (pacing : Pacing) : Prop :=
  0 < pacing.interval.nanos ∧ pacing.interval ≤ pacing.cap

instance (pacing : Pacing) : Decidable pacing.Valid :=
  inferInstanceAs (Decidable (_ ∧ _))

def validate (pacing : Pacing) : Except Fault Unit :=
  if pacing.interval.isZero || decide (pacing.cap < pacing.interval) then
    .error .badPacing
  else
    .ok ()

def nextDelay (pacing : Pacing) (delay : Duration) : Duration :=
  min delay.double pacing.cap

theorem validate_eq (pacing : Pacing) :
    pacing.validate = if pacing.Valid then .ok () else .error .badPacing := by
  have hvalid : (pacing.interval.isZero || decide (pacing.cap < pacing.interval)) =
      !decide pacing.Valid := by
    rw [Bool.eq_iff_iff]
    simp only [Bool.or_eq_true, decide_eq_true_eq, Bool.not_eq_true', decide_eq_false_iff_not,
      Duration.isZero_iff, Valid, Duration.lt_def, Duration.le_def]
    omega
  unfold validate
  rw [hvalid]
  by_cases h : pacing.Valid <;> simp [h]

theorem valid_default : default.Valid := by decide

end Pacing

end SpscRing
