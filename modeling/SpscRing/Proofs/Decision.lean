import SpscRing.Proofs.Rejection
/-!
# Why a call fails

For a ring in any state one table tells whether a call succeeds, and which fault stands
in its way if not: the first that applies. Calls come to these faults by several paths,
single ones, bulk ones and waits, and all agree with the table.
-/

namespace SpscRing

/-- What a caller asks of a ring, as far as it decides on success. -/
inductive Request where
  | insert
  | remove
  | peek (offset : UInt64)
  | insertMany (count : Nat)
  | removeMany (count : Nat)
  | check

def Request.isVoid : Request → Bool
  | insertMany 0 | removeMany 0 => true
  | _ => false

def failure? {β : Type} : Except Fault β → Option Fault
  | .error fault => some fault
  | .ok _ => none

namespace Ring

/-- What stands in the way of a request to a ring whose indices can be trusted. -/
def hindrance? {α : Type} (ring : Ring α) : Request → Option Fault
  | .insert | .insertMany _ =>
    if ring.occupancy.toNat + 1 = ring.capacity.toNat ∧
        (ring.overwrite = false ∨ ring.capacity = 1) then
      some .full
    else
      none
  | .remove | .removeMany _ => if ring.occupancy = 0 then some .empty else none
  | .peek offset => if ring.occupancy ≤ offset then some .badOffset else none
  | .check => none

/-- The first thing that stands in the way of a request, whatever the state of the ring. -/
def obstacle? {α : Type} (ring : Ring α) (request : Request) : Option Fault :=
  if ring.storage.isPresent = false then
    some .noStorage
  else if ring.capacity = 0 then
    some .emptyStorage
  else if request.isVoid then
    some .noItems
  else if ring.lap ≤ ring.producer ∨ ring.lap ≤ ring.consumer ∨ ring.capacity ≤ ring.span then
    some .corrupted
  else
    ring.hindrance? request

variable {α : Type} {ring : Ring α} {slots : Slots α} {request : Request} {fault : Fault}

theorem inRange_eq_false_iff :
    ring.inRange = false ↔
      ring.lap ≤ ring.producer ∨ ring.lap ≤ ring.consumer ∨ ring.capacity ≤ ring.span := by
  rw [← Bool.not_eq_true, inRange_iff]
  simp only [not_and_or, UInt64.not_lt]

/-! ## The rows of the table -/

theorem obstacle?_of_inert (hslots : ring.storage.slots? = .error fault) (request : Request) :
    ring.obstacle? request = some fault := by
  unfold obstacle? capacity
  obtain ⟨hstorage, rfl⟩ | ⟨hstorage, rfl⟩ := Storage.inert_of_slots? hslots
  · rw [hstorage]
    rfl
  · rw [hstorage]
    rfl

theorem obstacle?_of_slots (hslots : ring.storage = .lent slots) (request : Request) :
    ring.obstacle? request =
      if request.isVoid then some .noItems
      else if ring.inRange = true then ring.hindrance? request
      else some .corrupted := by
  have hpresent : ring.storage.isPresent ≠ false := by
    rw [hslots]
    exact Bool.noConfusion
  have hcapacity : ring.capacity ≠ 0 := by
    intro hzero
    have hsize := toNat_capacity_of_slots hslots
    rw [hzero] at hsize
    exact Nat.ne_of_lt slots.size_pos hsize
  unfold obstacle?
  rw [if_neg hpresent, if_neg hcapacity]
  congr 1
  by_cases hrange : ring.inRange = true
  · rw [if_pos hrange, if_neg (mt inRange_eq_false_iff.mpr (by simp [hrange]))]
  · rw [if_neg hrange, if_pos (inRange_eq_false_iff.mp (Bool.of_not_eq_true hrange))]

theorem obstacle?_of_void (hslots : ring.storage = .lent slots)
    (hvoid : request.isVoid = true) : ring.obstacle? request = some .noItems := by
  rw [obstacle?_of_slots hslots, if_pos hvoid]

theorem obstacle?_of_corrupted (hslots : ring.storage = .lent slots)
    (hrange : ring.inRange = false) (hasks : request.isVoid = false) :
    ring.obstacle? request = some .corrupted := by
  rw [obstacle?_of_slots hslots, hasks, hrange]
  rfl

theorem obstacle?_of_inRange (hslots : ring.storage = .lent slots) (hrange : ring.inRange = true)
    (hasks : request.isVoid = false) : ring.obstacle? request = ring.hindrance? request := by
  rw [obstacle?_of_slots hslots, hasks, if_pos hrange]
  rfl

/-! ## Single attempts -/

theorem hindrance?_insert (hslots : ring.storage = .lent slots) (hrange : ring.inRange = true) :
    ring.hindrance? .insert =
      if ring.span.toNat + 1 = slots.cells.size ∧
          (ring.overwrite = false ∨ slots.cells.size = 1) then
        some .full
      else
        none := by
  have hone : ring.capacity = 1 ↔ slots.cells.size = 1 := by
    rw [← UInt64.toNat_inj, toNat_capacity_of_slots hslots]
    rfl
  simp only [hindrance?, occupancy_of_inRange hrange, toNat_capacity_of_slots hslots, hone]

theorem hindrance?_remove (hrange : ring.inRange = true) :
    ring.hindrance? .remove = if ring.span.toNat = 0 then some .empty else none := by
  have hnone : ring.span = 0 ↔ ring.span.toNat = 0 := by
    rw [← UInt64.toNat_inj]
    rfl
  simp only [hindrance?, occupancy_of_inRange hrange, hnone]

theorem failure?_offer (ring : Ring α) (item : α) :
    failure? (ring.offer item ring.overwrite).result = ring.obstacle? .insert := by
  have hoffered := ring.offered item ring.overwrite
  generalize ring.offer item ring.overwrite = outcome at hoffered ⊢
  cases hoffered with
  | inert hslots => exact (obstacle?_of_inert hslots .insert).symm
  | corrupted hslots hrange => exact (obstacle?_of_corrupted hslots hrange rfl).symm
  | full hslots hrange hfull hmode =>
      rw [obstacle?_of_inRange hslots hrange rfl, hindrance?_insert hslots hrange,
        if_pos ⟨hfull, hmode⟩]
      rfl
  | replaced hslots hrange hfull hmode hmany =>
      rw [obstacle?_of_inRange hslots hrange rfl, hindrance?_insert hslots hrange, hmode,
        if_neg (by simp; omega)]
      rfl
  | accepted hslots hrange hroom =>
      rw [obstacle?_of_inRange hslots hrange rfl, hindrance?_insert hslots hrange,
        if_neg (by omega)]
      rfl

theorem failure?_take (ring : Ring α) : failure? ring.take.result = ring.obstacle? .remove := by
  have htaken := ring.taken
  generalize ring.take = outcome at htaken ⊢
  cases htaken with
  | inert hslots => exact (obstacle?_of_inert hslots .remove).symm
  | corrupted hslots hrange => exact (obstacle?_of_corrupted hslots hrange rfl).symm
  | empty hslots hrange hnone =>
      rw [obstacle?_of_inRange hslots hrange rfl, hindrance?_remove hrange, if_pos hnone]
      rfl
  | delivered hslots hrange hsome =>
      rw [obstacle?_of_inRange hslots hrange rfl, hindrance?_remove hrange, if_neg (by omega)]
      rfl

theorem failure?_integrity (ring : Ring α) :
    failure? ring.integrity.result = ring.obstacle? .check := by
  have hchecked := ring.checked
  generalize ring.integrity = outcome at hchecked ⊢
  cases hchecked with
  | inert hslots => exact (obstacle?_of_inert hslots .check).symm
  | corrupted hslots hrange => exact (obstacle?_of_corrupted hslots hrange rfl).symm
  | sound hrange =>
      obtain ⟨slots, hslots⟩ := exists_slots_of_inRange hrange
      have hrow : ring.obstacle? .check = ring.hindrance? .check :=
        obstacle?_of_inRange hslots hrange rfl
      exact hrow.symm

theorem failure?_itemAt (ring : Ring α) (offset : UInt64) :
    failure? (ring.itemAt offset) = ring.obstacle? (.peek offset) := by
  unfold itemAt
  cases hstorage : ring.storage with
  | absent | noCells =>
      refine (obstacle?_of_inert ?_ (.peek offset)).symm
      rw [hstorage]
      rfl
  | lent slots =>
      simp only [Storage.slots?]
      cases hrange : ring.inRange with
      | false => exact (obstacle?_of_corrupted hstorage hrange rfl).symm
      | true =>
          have hrow : ring.obstacle? (.peek offset) = ring.hindrance? (.peek offset) :=
            obstacle?_of_inRange hstorage hrange rfl
          rw [hrow, hindrance?, occupancy_of_inRange hrange]
          by_cases hpast : ring.span ≤ offset
          · simp only [Bool.not_true, Bool.false_eq_true, if_false, if_pos hpast, failure?]
          · simp only [Bool.not_true, Bool.false_eq_true, if_false, if_neg hpast, failure?]

/-! ## Bulk attempts -/

theorem BulkEnd.failure?_eq {β γ : Type} {first? : Option (Outcome α (Except Fault β))}
    {outcome : Outcome α (Except Fault γ)} (hend : BulkEnd ring first? outcome)
    (hvoid : first? = none → request.isVoid = true)
    (hfirst : ∀ first ∈ first?, failure? first.result = ring.obstacle? request) :
    failure? outcome.result = ring.obstacle? request := by
  cases hend with
  | inert hslots => exact (obstacle?_of_inert hslots request).symm
  | void hslots => exact (obstacle?_of_void hslots (hvoid rfl)).symm
  | rejected hfails =>
      rw [← hfirst _ rfl, hfails]
      rfl
  | moved hmoves hends =>
      rw [← hfirst _ rfl, hmoves, hends]
      rfl

theorem failure?_offerAll (ring : Ring α) (items : List α) :
    failure? (ring.offerAll items).result = ring.obstacle? (.insertMany items.length) := by
  apply (ring.bulkEnd_offerAll items).failure?_eq
  · intro hnone
    rw [List.head?_eq_none_iff.mp (Option.map_eq_none_iff.mp hnone)]
    rfl
  · intro first hfirst
    obtain ⟨item, hitem, rfl⟩ := Option.map_eq_some_iff.mp hfirst
    obtain ⟨later, rfl⟩ := List.head?_eq_some_iff.mp hitem
    -- With an item to move, a bulk insert meets what a single one meets.
    exact ring.failure?_offer item

theorem failure?_takeAll (ring : Ring α) (limit : Nat) :
    failure? (ring.takeAll limit).result = ring.obstacle? (.removeMany limit) := by
  apply (ring.bulkEnd_takeAll limit).failure?_eq
  · intro hnone
    cases limit with
    | zero => rfl
    | succ limit => cases hnone
  · intro first hfirst
    obtain ⟨hsome, hfirst⟩ := Option.ite_none_left_eq_some.mp hfirst
    obtain ⟨limit, rfl⟩ := Nat.exists_eq_succ_of_ne_zero hsome
    cases hfirst
    exact ring.failure?_take

end Ring

/-! ## Calls -/

theorem failure?_tracked {α β : Type} (outcome : Outcome α (Except Fault β))
    (operation : Operation) (line : UInt32) :
    failure? (outcome.tracked operation line).result = failure? outcome.result := by
  rw [Outcome.result_tracked]

/-- How a lone wait ends, by what stands in its way at the start. Unless that may pass and
there is time for it, the first attempt decides, and no look at the time passed and no sleep
follows; otherwise the call times out, given a clock on which it ends and a usable pacing. -/
structure Wait.DecidedBy {β ρ σ : Type} (obstacle : Option Fault) (waitingOn : Fault)
    (timeout : Duration) (pacing : Pacing) (wait : Wait β ρ σ) : Prop where
  atOnce : obstacle ≠ some waitingOn ∨ timeout.isZero = true →
    ∃ outcome, failure? outcome = obstacle ∧ wait.verdict = .settled outcome ∧
      wait.trace = [.now, .attempt outcome]
  inTime : obstacle = some waitingOn → timeout.isZero = false → pacing.Valid →
    wait.verdict ≠ .unsettled → wait.verdict.result? = some (.error .timedOut)

theorem failure?_eq_some {β : Type} {outcome : Except Fault β} {fault : Fault} :
    failure? outcome = some fault ↔ outcome = .error fault := by
  cases outcome <;> simp [failure?]

theorem failsWith_eq_false {β : Type} {outcome : Except Fault β} {fault : Fault}
    (hother : failure? outcome ≠ some fault) : failsWith fault outcome = false := by
  rw [Bool.eq_false_iff]
  exact fun hfails => hother (failure?_eq_some.mpr (failsWith_iff.mp hfails))

theorem WaitingCall.decidedBy {α β σ : Type} {operation : Operation} {waitingOn : Fault}
    {line : UInt32} {timeout : Duration} {ring final : Ring α} {events : List (Event α)}
    {attempt : Ring α → Outcome α (Except Fault β)} {wait : Wait β (List (Answer α)) σ}
    (hattempt : Repeatable attempt waitingOn)
    (hcall : WaitingCall attempt operation waitingOn line timeout [] ring wait.verdict wait.trace
      events final) :
    wait.DecidedBy (failure? (attempt ring).result) waitingOn timeout ring.pacing := by
  obtain ⟨verdict, trace, world⟩ := wait
  obtain ⟨hwaited, _⟩ := hcall
  constructor
  · intro hdecides
    have hends : failsWith waitingOn (attempt ring).result = false ∨ timeout.isZero = true :=
      hdecides.imp_left failsWith_eq_false
    exact ⟨_, rfl, hwaited.atOnce_of hends⟩
  · intro hobstacle hlong hvalid hended
    have hfails : (attempt ring).result = .error waitingOn := failure?_eq_some.mp hobstacle
    have hverdict : verdict = .gaveUp :=
      hwaited.gaveUp_alone hattempt hvalid hlong hfails hended
    rw [hverdict]
    rfl

namespace Ring

variable {α κ ι : Type}

theorem failure?_removeMany (ring : Ring α) (buffer : List α) (line : UInt32) :
    failure? (ring.removeMany buffer line).result.1 =
      ring.obstacle? (.removeMany buffer.length) := by
  rw [← failure?_takeAll, ← failure?_tracked _ .removeMany line, removeMany_eq_takeAll]
  generalize (ring.takeAll buffer.length).tracked .removeMany line = outcome
  obtain ⟨_ | items, next, events⟩ := outcome <;> rfl

/-- On a ring in any state, a call fails just when something stands in its way, and with the
first fault that does. A waiting call without the calls of others goes by the same table. -/
theorem obstacle_decides (ring : Ring α) (line : UInt32) (timepiece : Clock κ ι Unit)
    (timeout : Duration) (rounds : Nat) (clock : κ) :
    (∀ item, failure? (ring.insert item line).result = ring.obstacle? .insert) ∧
      failure? (ring.remove line).result = ring.obstacle? .remove ∧
      (∀ offset, failure? (ring.peek offset line).result = ring.obstacle? (.peek offset)) ∧
      (∀ items,
        failure? (ring.insertMany items line).result = ring.obstacle? (.insertMany items.length)) ∧
      (∀ buffer,
        failure? (ring.removeMany buffer line).result.1 =
          ring.obstacle? (.removeMany buffer.length)) ∧
      failure? (ring.check line).result = ring.obstacle? .check ∧
      (∀ item,
        (ring.insertWithin item timeout (Surroundings.clockwork timepiece) rounds ⟨clock, []⟩
          line).DecidedBy (ring.obstacle? .insert) .full timeout ring.pacing) ∧
      (ring.removeWithin timeout (Surroundings.clockwork timepiece) rounds ⟨clock, []⟩
        line).DecidedBy (ring.obstacle? .remove) .empty timeout ring.pacing := by
  refine ⟨?insert, ?remove, ?peek, ?insertMany, ?removeMany, ?check, ?insertWithin,
    ?removeWithin⟩
  case insert =>
    intro item
    rw [insert, failure?_tracked, failure?_offer]
  case remove => rw [remove, failure?_tracked, failure?_take]
  case peek =>
    intro offset
    rw [peek, failure?_tracked]
    exact ring.failure?_itemAt offset
  case insertMany =>
    intro items
    rw [insertMany, failure?_tracked, failure?_offerAll]
  case removeMany =>
    intro buffer
    exact ring.failure?_removeMany buffer line
  case check => rw [check, failure?_tracked, failure?_integrity]
  case insertWithin =>
    intro item
    rw [← ring.failure?_offer item]
    exact (SpscRing.waitingCall_insertWithin timepiece ring timeout rounds ⟨clock, []⟩ line
      item).decidedBy (repeatable_offer item ring.overwrite)
  case removeWithin =>
    rw [← ring.failure?_take]
    exact (SpscRing.waitingCall_removeWithin timepiece ring timeout rounds ⟨clock, []⟩
      line).decidedBy repeatable_take

def astray : Ring Nat := { brimful with consumer := 9 }

theorem obstacle_decides_small :
    let clock := Surroundings.clockwork VirtualClock.timepiece
    let inserted := brimful.insertWithin 7 (.ofMillis 3) clock 9 ⟨.exact .zero, []⟩ 6
    let removed := brimful.removeWithin (.ofMillis 3) clock 9 ⟨.exact .zero, []⟩ 6
    failure? (brimful.insert 7 6).result = some .full ∧
      failure? (brimful.remove 6).result = none ∧
      failure? (brimful.peek 1 6).result = some .badOffset ∧
      failure? (astray.insertMany [7] 6).result = some .corrupted ∧
      failure? (astray.removeMany [] 6).result.1 = some .noItems ∧
      failure? (astray.check 6).result = some .corrupted ∧
      (inserted.verdict ≠ .unsettled ∧
        inserted.verdict.result? = some (.error .timedOut)) ∧
      ∃ outcome, failure? outcome = none ∧ removed.verdict = .settled outcome ∧
        removed.trace = [.now, .attempt outcome] := by
  intro clock inserted removed
  have hended : inserted.verdict ≠ .unsettled := by
    rw [show inserted.verdict = .gaveUp from rfl]
    exact nofun
  obtain ⟨hinsert, hremove, hpeek, _, _, _, hinsertWithin, hremoveWithin⟩ :=
    obstacle_decides brimful 6 VirtualClock.timepiece (.ofMillis 3) 9 (.exact .zero)
  obtain ⟨_, _, _, hinsertMany, hremoveMany, hcheck, _⟩ :=
    obstacle_decides astray 6 VirtualClock.timepiece (.ofMillis 3) 9 (.exact .zero)
  have htime : (Duration.ofMillis 3).isZero = false := by decide
  exact ⟨hinsert 7, hremove, hpeek 1, hinsertMany [7], hremoveMany [], hcheck,
    ⟨hended, (hinsertWithin 7).inTime rfl htime (by decide) hended⟩,
    hremoveWithin.atOnce (.inl nofun)⟩

end Ring

end SpscRing
