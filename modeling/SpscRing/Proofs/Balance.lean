import Mathlib.Data.Nat.ModEq
import SpscRing.Proofs.Accounting
import SpscRing.Proofs.Placement
import SpscRing.Proofs.Predictions
/-!
# Counters, drops and items held

A ring counts what comes in on one side and what goes out on the other, and drops items without
counting them. From the moment it is set up its counters still agree with its indices: what came
in was removed, dropped or is held. The drops have no counter of their own, so the history has to
say how many there were.
-/

namespace SpscRing

/-! ## The traces of control -/

def Event.control? {α : Type} : Event α → Option (Call α)
  | countersReset => some .resetCounters
  | overwriteSet enabled => some (.setOverwrite enabled)
  | failureCleared => some .clearFailure
  | _ => none

theorem Event.isControl_of_control? {α : Type} {event : Event α} {control : Call α}
    (hcontrol : event.control? = some control) : event.isControl = true := by
  cases event with
  | countersReset | overwriteSet | failureCleared => rfl
  | _ => cases hcontrol

namespace Ring

variable {α : Type}

theorem control?_setUp (ring : Ring α) (storage : Storage α) (line : UInt32) :
    ∀ event ∈ (ring.setUp storage line).events, event.control? = none := by
  cases storage with
  | absent | noCells => exact List.forall_mem_cons.mpr ⟨rfl, List.forall_mem_singleton.mpr rfl⟩
  | lent => exact List.forall_mem_singleton.mpr rfl

theorem control?_setPacing (ring : Ring α) (pacing : Pacing) (line : UInt32) :
    ∀ event ∈ (ring.setPacing pacing line).events, event.control? = none := by
  have hend := ring.paced pacing line
  generalize ring.setPacing pacing line = outcome at hend ⊢
  cases hend with
  | installed | refused => exact List.forall_mem_singleton.mpr rfl

end Ring

namespace Session

open SpscRing.Ring

variable {α : Type} {event : Event α} {control : Call α}

theorem eq_of_control?_perform (session : Session α) {call : Call α}
    (hevent : event ∈ (session.perform call).1.allEvents)
    (hcontrol : event.control? = some control) : call = control := by
  have hsome : event.control? ≠ none := by simp [hcontrol]
  have hmoved : call.isControl = false → event.isControl = false := fun hshared =>
    (session.moves_perform hshared (.inl rfl)).isControl_eq event hevent
  have htrace := Event.isControl_of_control? hcontrol
  cases call with
  | shared | split => simp [hmoved rfl] at htrace
  | setUp store line => exact absurd (session.ring.control?_setUp _ line event hevent) hsome
  | setPacing pacing line =>
      exact absurd (session.ring.control?_setPacing pacing line event hevent) hsome
  | setOverwrite | resetCounters | clearFailure =>
      rw [List.mem_singleton.mp hevent] at hcontrol
      exact Option.some.inj hcontrol

theorem mem_of_control? {calls : List (Call α)} (session : Session α)
    (hevent : event ∈ (session.performAll calls).1.flatMap Step.allEvents)
    (hcontrol : event.control? = some control) : control ∈ calls := by
  induction calls generalizing session with
  | nil => cases hevent
  | cons call later ih =>
      rcases List.mem_append.mp hevent with hnow | hlater
      · rw [session.eq_of_control?_perform hnow hcontrol]
        exact List.mem_cons_self
      · exact List.mem_cons_of_mem call (ih (session.perform call).2 hlater)

end Session

/-! ## Counters by attempts -/

/-- The counters that count attempts. The peak is the one that does not. -/
inductive Counter where
  | inserts
  | removes
  | overflows
  | underflows
  deriving DecidableEq, Repr

namespace Counter

def value : Counter → Counters → UInt64
  | inserts => Counters.inserts
  | removes => Counters.removes
  | overflows => Counters.overflows
  | underflows => Counters.underflows

def counts {α : Type} : Counter → Tried α → Bool
  | inserts => Tried.accepts
  | removes => Tried.delivers
  | overflows => failsWith .full
  | underflows => failsWith .empty

theorem value_tally {α : Type} (counter : Counter) (tried : List (Tried α))
    (occupancies : List UInt64) :
    counter.value (.tally tried occupancies) = .ofNat (tried.countP counter.counts) := by
  cases counter with
  | inserts | removes | overflows | underflows => rfl

end Counter

theorem countP_accepts {α : Type} (events : List (Event α)) :
    (attempts events).countP Tried.accepts = (arrivals events).length := by
  rw [attempts, arrivals, List.countP_filterMap, List.length_filterMap_eq_countP]
  congr 1
  funext event
  cases event <;> rfl

theorem countP_delivers {α : Type} (events : List (Event α)) :
    (attempts events).countP Tried.delivers =
      ((transfers events).filterMap Transfer.delivered?).length := by
  rw [attempts, transfers, List.filterMap_filterMap, List.countP_filterMap,
    List.length_filterMap_eq_countP]
  congr 1
  funext event
  cases event <;> rfl

theorem length_occupancies {α : Type} (events : List (Event α)) :
    (occupancies events).length = (arrivals events).length := by
  rw [occupancies, arrivals, List.length_filterMap_eq_countP, List.length_filterMap_eq_countP]
  congr 1
  funext event
  cases event <;> rfl

theorem le_foldl_max (occupancies : List UInt64) (peak : UInt64) :
    peak ≤ occupancies.foldl max peak := by
  induction occupancies generalizing peak with
  | nil => exact UInt64.le_refl peak
  | cons occupancy later ih =>
      have hmax : peak ≤ max peak occupancy := by
        rw [UInt64.le_iff_toNat_le, UInt64.toNat_max]
        exact Nat.le_max_left _ _
      exact UInt64.le_trans hmax (ih (max peak occupancy))

namespace Ring

variable {α : Type} {ring next start : Ring α} {events later : List (Event α)}
  {tried : List (Tried α)} {earlier : List UInt64}

/-! ## What single changes keep -/

theorem Change.tallies (hchange : Change false ring events next)
    (hkept : Event.countersReset ∉ events) (htallies : ring.Tallies tried earlier) :
    next.Tallies (tried ++ attempts events) (earlier ++ occupancies events) := by
  cases hchange with
  | move hmove => exact hmove.tallies htallies
  | setUp hstray => cases hstray
  | setPacing _ pacing line =>
      have hend := ring.paced pacing line
      generalize ring.setPacing pacing line = outcome at hend ⊢
      cases hend with
      | installed | refused => exact htallies.quiet rfl rfl rfl
  | setOverwrite | clearFailure => exact htallies.quiet rfl rfl rfl
  | resetCounters => exact absurd List.mem_cons_self hkept

/-- A change either tells of one item that came in how many are held with it, or leaves no more
held than before. -/
theorem Change.occupancies_eq (hrange : ring.inRange = true)
    (hchange : Change false ring events next) :
    occupancies events = [] ∧ next.occupancy.toNat ≤ ring.occupancy.toNat ∨
      occupancies events = [next.occupancy] := by
  have hlength := length_occupancies events
  have hsince := congrArg List.length (hchange.since hrange).items
  rw [List.length_append, List.length_append, List.length_map, length_contents, length_contents]
    at hsince
  cases hchange.writes with
  | nothing _ hnone =>
      rw [hnone, List.length_nil] at hlength hsince
      refine .inl ⟨List.eq_nil_of_length_eq_zero hlength, ?_⟩
      omega
  | item item _ hone =>
      rw [hone, List.length_singleton] at hlength
      obtain ⟨occupancy, hoccupancy⟩ := List.length_eq_one_iff.mp hlength
      have hmem : occupancy ∈ occupancies events := by simp [hoccupancy]
      obtain ⟨event, hevent, htold⟩ := List.mem_filterMap.mp hmem
      cases event with
      | accepted item _ =>
          cases htold
          rw [hoccupancy, (hchange.loosen.recounted.accepted item occupancy hevent).1]
          exact .inr rfl
      | _ => cases htold

theorem Change.keeps (hchange : Change false ring events next)
    (hnever : Event.overwriteSet true ∉ events) (hmode : ring.overwrite = false) :
    next.overwrite = false ∧ events.filterMap Event.evicted? = [] := by
  cases hchange with
  | move hmove =>
      refine ⟨hmove.overwrite_eq.trans hmode, ?_⟩
      cases hmove with
      | offer _ item =>
          have hend := ring.offered item ring.overwrite
          generalize ring.offer item ring.overwrite = outcome at hend ⊢
          cases hend with
          | inert | corrupted | full | accepted => rfl
          | replaced _ _ _ hdropping => simp [hmode] at hdropping
      | take =>
          have hend := ring.taken
          generalize ring.take = outcome at hend ⊢
          cases hend with
          | inert | corrupted | empty | delivered => rfl
      | check =>
          have hend := ring.checked
          generalize ring.integrity = outcome at hend ⊢
          cases hend with
          | inert | corrupted | sound => rfl
      | fail | giveUp | force => rfl
  | setUp hstray => cases hstray
  | setPacing _ pacing line =>
      have hend := ring.paced pacing line
      generalize ring.setPacing pacing line = outcome at hend ⊢
      cases hend with
      | installed | refused => exact ⟨hmode, rfl⟩
  | setOverwrite _ enabled =>
      cases enabled with
      | false => exact ⟨rfl, rfl⟩
      | true => exact absurd List.mem_cons_self hnever
  | resetCounters | clearFailure => exact ⟨hmode, rfl⟩

/-! ## What runs keep -/

theorem Course.tallies_of_kept (hcourse : Course (Change false) ring events next)
    (hkept : Event.countersReset ∉ events) (htallies : ring.Tallies tried earlier) :
    next.Tallies (tried ++ attempts events) (earlier ++ occupancies events) := by
  induction hcourse with
  | rest => exact htallies.quiet rfl rfl rfl
  | step _ hchange ih =>
      rw [List.mem_append, not_or] at hkept
      rw [attempts_append, occupancies_append, ← List.append_assoc, ← List.append_assoc]
      exact hchange.tallies hkept.2 (ih hkept.1)

theorem Course.keeps (hcourse : Course (Change false) start events ring)
    (hnever : Event.overwriteSet true ∉ events) (hmode : start.overwrite = false) :
    ring.overwrite = false ∧ events.filterMap Event.evicted? = [] := by
  induction hcourse with
  | rest => exact ⟨hmode, rfl⟩
  | step _ hchange ih =>
      rw [List.mem_append, not_or] at hnever
      obtain ⟨hbefore, hnone⟩ := ih hnever.1
      obtain ⟨hafter, hlater⟩ := hchange.keeps hnever.2 hbefore
      exact ⟨hafter, by rw [List.filterMap_append, hnone, hlater]; rfl⟩

/-- What is held is never above the highest occupancy told, and that is below the capacity. -/
theorem Course.peak_told (hcourse : Course (Change false) start events ring)
    (hrange : start.inRange = true) (hstart : start.occupancy = 0) :
    let peak := (occupancies events).foldl max 0
    ring.occupancy.toNat ≤ peak.toNat ∧ peak.toNat < ring.capacity.toNat := by
  induction hcourse with
  | rest =>
      have hplaces := occupancy_add_freeSpace hrange
      rw [hstart] at hplaces ⊢
      refine ⟨Nat.le_refl _, ?_⟩
      show (0 : UInt64).toNat < _
      omega
  | @step events later ring next hearlier hchange ih =>
      obtain ⟨hheld, hbelow⟩ := ih
      have hsince := hearlier.since hrange
      have hlater := hchange.since hsince.inRange
      have hplaces := occupancy_add_freeSpace hlater.inRange
      rw [← hlater.capacity] at hbelow
      intro peak
      rcases hchange.occupancies_eq hsince.inRange with ⟨hnone, hle⟩ | hone
      · simp only [peak, occupancies_append, hnone, List.append_nil]
        omega
      · simp only [peak, occupancies_append, hone, List.foldl_append, List.foldl_cons,
          List.foldl_nil, UInt64.toNat_max]
        omega

/-! ## Rings just set up -/

theorem Tallies.counters_eq (htallies : ring.Tallies tried earlier) :
    ring.counters = .tally tried earlier := by
  rw [counters, htallies]
  rfl

/-- The counters of a ring agree with its indices after a history: up to whole turns of the
counters, what came in was removed, was dropped by the log, or is held. The peak is no lower than
what is held, and no higher than what can be. -/
structure Balanced (events : List (Event α)) (ring : Ring α) : Prop where
  inserts : ring.counters.inserts.toNat ≡
    ring.counters.removes.toNat + countLines "evicted oldest item" events + ring.occupancy.toNat
      [MOD UInt64.size]
  occupancy_le : ring.occupancy ≤ ring.counters.peak
  peak_lt : ring.counters.peak < ring.capacity

section

variable {fresh : Ring α} {slots : Slots α}

theorem tallies_rebind (hfull : fresh.recorder ≠ .off) :
    (fresh.rebind (.lent slots)).Tallies ([] : List (Tried α)) [] := by
  show fresh.recorder.reset = _
  cases hrecorder : fresh.recorder with
  | off => exact absurd hrecorder hfull
  | on => rfl

variable (hcourse : Course (Change false) (fresh.rebind (.lent slots)) events ring)

include hcourse

/-- What came in was handed to the consumer, was dropped, or is held. -/
theorem Course.accepts_eq :
    (attempts events).countP Tried.accepts =
      (attempts events).countP Tried.delivers + countLines "evicted oldest item" events +
        ring.occupancy.toNat := by
  have hrepresents := (hcourse.since (inRange_rebind fresh slots)).represents
  have hheld := hrepresents.occupancy
  have hleft := hrepresents.left_le
  have hparts := length_departures events
  rw [countP_accepts, countP_delivers, countLines_evicted]
  omega

variable (hfull : fresh.recorder ≠ .off) (hkept : Event.countersReset ∉ events)

include hfull hkept

theorem Course.tallied : ring.Tallies (attempts events) (occupancies events) :=
  hcourse.tallies_of_kept hkept (tallies_rebind hfull)

theorem Course.value_eq (counter : Counter) :
    counter.value ring.counters = .ofNat ((attempts events).countP counter.counts) := by
  rw [(hcourse.tallied hfull hkept).counters_eq, counter.value_tally]

theorem Course.inserts_modEq :
    ring.counters.inserts.toNat ≡
      ring.counters.removes.toNat + countLines "evicted oldest item" events +
        ring.occupancy.toNat [MOD UInt64.size] := by
  have hinserts : ring.counters.inserts = _ := hcourse.value_eq hfull hkept .inserts
  have hremoves : ring.counters.removes = _ := hcourse.value_eq hfull hkept .removes
  rw [hinserts, hremoves]
  calc (attempts events).countP Tried.accepts % UInt64.size
    _ ≡ (attempts events).countP Tried.accepts [MOD UInt64.size] := Nat.mod_modEq _ _
    _ = (attempts events).countP Tried.delivers + countLines "evicted oldest item" events +
          ring.occupancy.toNat := hcourse.accepts_eq
    _ ≡ (attempts events).countP Tried.delivers % UInt64.size +
          countLines "evicted oldest item" events + ring.occupancy.toNat [MOD UInt64.size] :=
        ((Nat.mod_modEq _ _).symm.add_right _).add_right _

theorem Course.balanced : Balanced events ring := by
  have hcounters := (hcourse.tallied hfull hkept).counters_eq
  have hempty : (fresh.rebind (.lent slots)).occupancy = 0 := by
    rw [occupancy_of_inRange (inRange_rebind fresh slots), span_rebind]
  have hpeak := hcourse.peak_told (inRange_rebind fresh slots) hempty
  refine ⟨hcourse.inserts_modEq hfull hkept, ?_, ?_⟩
  · rw [hcounters, UInt64.le_iff_toNat_le]
    exact hpeak.1
  · rw [hcounters, UInt64.lt_iff_toNat_lt]
    exact hpeak.2

/-- Where nothing was ever dropped, two counters tell how many items are held. -/
theorem Course.inserts_sub_removes (hnever : Event.overwriteSet true ∉ events) :
    ring.counters.inserts - ring.counters.removes = ring.occupancy := by
  have hinserts : ring.counters.inserts = _ := hcourse.value_eq hfull hkept .inserts
  have hremoves : ring.counters.removes = _ := hcourse.value_eq hfull hkept .removes
  have hsum : (attempts events).countP Tried.accepts = _ := hcourse.accepts_eq
  rw [countLines_evicted, (hcourse.keeps hnever rfl).2, List.length_nil, Nat.add_zero] at hsum
  rw [hinserts, hremoves]
  simp only [Counter.counts]
  rw [hsum, UInt64.ofNat_add, UInt64.add_comm, UInt64.add_sub_cancel, UInt64.ofNat_toNat]

/-- No counter goes down before it has gone round, and the peak never does. -/
theorem Course.counters_le (hlater : Course (Change false) ring later next)
    (hlast : Event.countersReset ∉ later) :
    ring.counters.peak ≤ next.counters.peak ∧
      ∀ counter : Counter,
        (attempts (events ++ later)).countP counter.counts < UInt64.size →
          counter.value ring.counters ≤ counter.value next.counters := by
  have hboth : Event.countersReset ∉ events ++ later := by simp [hkept, hlast]
  have hwhole := hcourse.trans hlater
  constructor
  · rw [(hcourse.tallied hfull hkept).counters_eq, (hwhole.tallied hfull hboth).counters_eq,
      occupancies_append]
    show _ ≤ (occupancies events ++ occupancies later).foldl max 0
    rw [List.foldl_append]
    exact le_foldl_max (occupancies later) _
  · intro counter hfew
    rw [hcourse.value_eq hfull hkept, hwhole.value_eq hfull hboth, UInt64.le_iff_toNat_le,
      UInt64.toNat_ofNat_of_lt' hfew]
    rw [attempts_append, List.countP_append] at hfew ⊢
    rw [UInt64.toNat_ofNat_of_lt' (by omega)]
    exact Nat.le_add_right _ _

end

end Ring

namespace Session

open SpscRing.Ring

variable {α : Type} {session : Session α} {store : Option Nat} {line : UInt32}

/-- In a build that keeps counters, after a ring was set up, and as long as it is not set up
again, its counters are not set back and nobody else writes its indices: the counters balance
after the run and at every moment of it, whichever way the mode is set meanwhile. If nothing may
ever be dropped, what came in less what went out is what is held. From one moment to a later one
the peak does not go down, and no other counter does before it has counted a whole turn. -/
theorem counters_balance (hready : (session.lend store line).1.result = .ok ())
    (hfull : session.ring.recorder ≠ .off) (calls : List (Call α))
    (hsteady : ∀ call ∈ calls, call.steady = true) (hkeeps : ∀ call ∈ calls, call.zeroes = false) :
    let start := (session.lend store line).2
    let run := start.performAll calls
    let journal := run.1.flatMap Step.allEvents
    Course (Change false) start.ring journal run.2.ring ∧
      Event.countersReset ∉ journal ∧
      (Event.overwriteSet true ∈ journal → Call.setOverwrite true ∈ calls) ∧
      ∀ events ring, Course (Change false) start.ring events ring →
        Event.countersReset ∉ events →
          Balanced events ring ∧
            (Event.overwriteSet true ∉ events →
              ring.counters.inserts - ring.counters.removes = ring.occupancy) ∧
            ∀ later next, Course (Change false) ring later next → Event.countersReset ∉ later →
              ring.counters.peak ≤ next.counters.peak ∧
                ∀ counter : Counter,
                  (attempts (events ++ later)).countP counter.counts < UInt64.size →
                    counter.value ring.counters ≤ counter.value next.counters := by
  obtain ⟨slots, _, hring⟩ := lend_ready hready
  intro start run journal
  refine ⟨start.course_of_steady hsteady, ?_, fun hmem => start.mem_of_control? hmem rfl, ?_⟩
  · intro hreset
    have hzeroes := hkeeps .resetCounters (start.mem_of_control? hreset rfl)
    cases hzeroes
  · intro events ring hcourse hkept
    rw [hring] at hcourse
    exact ⟨hcourse.balanced hfull hkept, hcourse.inserts_sub_removes hfull hkept,
      fun _ _ hlater hlast => hcourse.counters_le hfull hkept hlater hlast⟩

theorem counters_balance_small :
    let start := (small.lend (some 0) 1).2
    let keeping := smallCalls.take 3
    let early := start.performAll keeping
    let late := early.2.performAll (smallCalls.drop 3)
    let run := start.performAll smallCalls
    let journal := run.1.flatMap Step.allEvents
    (small.lend (some 0) 1).1.result = .ok () ∧ small.ring.recorder ≠ .off ∧
      (∀ call ∈ smallCalls, call.steady = true) ∧ (∀ call ∈ smallCalls, call.zeroes = false) ∧
      run.2.ring.counters = ⟨2, 4, 2, 1, 0⟩ ∧
      countLines "evicted oldest item" journal = 1 ∧ run.2.ring.occupancy = 1 ∧
      Balanced journal run.2.ring ∧
      early.2.ring.counters.inserts - early.2.ring.counters.removes = 2 ∧
      early.2.ring.counters.peak ≤ late.2.ring.counters.peak := by
  intro start keeping early late run journal
  have hready : (small.lend (some 0) 1).1.result = .ok () := rfl
  have hfull : small.ring.recorder ≠ .off := by decide
  have hsteady : ∀ call ∈ smallCalls, call.steady = true := by decide
  have hkeeps : ∀ call ∈ smallCalls, call.zeroes = false := by decide
  obtain ⟨hcourse, hkept, _, hmoments⟩ :=
    counters_balance hready hfull smallCalls hsteady hkeeps
  have hearly : Course (Change false) start.ring _ early.2.ring :=
    start.course_of_steady (by decide)
  have hlate : Course (Change false) early.2.ring _ late.2.ring :=
    early.2.course_of_steady (by decide)
  obtain ⟨_, hheld, hlater⟩ := hmoments _ _ hearly (by decide)
  exact ⟨hready, hfull, hsteady, hkeeps, rfl, rfl, by decide, (hmoments _ _ hcourse hkept).1,
    (hheld (by decide)).trans (by decide), (hlater _ _ hlate (by decide)).1⟩

end Session

end SpscRing
