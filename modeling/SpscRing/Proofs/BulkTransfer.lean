import Mathlib.Data.List.DropRight
import SpscRing.Proofs.Singles
/-!
# What bulk calls do to the items of a ring

A bulk insert appends what fits, or appends all of it and keeps the latest items; a bulk remove
takes items off the front. Nothing is lost on the way: what was held and what came in has been
dropped, in order, or is still held. As the ring holds as much of it as it can, that settles
which items were dropped, however often the window goes round the memory during one call.
-/

namespace SpscRing

namespace Ring

variable {α : Type}

def limit (ring : Ring α) : Nat := ring.capacity.toNat - 1

/-! ## Items coming in -/

/-- From a ring in order to another, items came in at the end; what was dropped and what is
held now make up what was held before and those items. -/
structure Absorbs (ring : Ring α) (items : List α) (next : Ring α) (events : List (Event α)) :
    Prop where
  inRange : next.inRange = true
  capacity_eq : next.capacity = ring.capacity
  conserved : events.filterMap Event.evicted? ++ next.contents = ring.contents ++ items
  kept : next.contents.length = min ring.limit (ring.contents.length + items.length)

theorem length_contents_le_limit {ring : Ring α} (hrange : ring.inRange = true) :
    ring.contents.length ≤ ring.limit := by
  obtain ⟨_, _, hspan⟩ := inRange_iff.mp hrange
  rw [UInt64.lt_iff_toNat_lt] at hspan
  rw [length_contents_of_inRange hrange]
  unfold limit
  omega

namespace Absorbs

variable {ring middle next : Ring α} {items more : List α} {events later : List (Event α)}

theorem nothing (hrange : next.inRange = true) (hcapacity : next.capacity = ring.capacity)
    (hcontents : next.contents = ring.contents)
    (hevents : events.filterMap Event.evicted? = []) : Absorbs ring [] next events where
  inRange := hrange
  capacity_eq := hcapacity
  conserved := by rw [hevents, hcontents, List.nil_append, List.append_nil]
  kept := by
    have hmost := length_contents_le_limit hrange
    rw [hcontents, limit, hcapacity] at hmost
    rw [hcontents, List.length_nil]
    unfold limit
    omega

theorem tracked {β : Type} {outcome : Outcome α (Except Fault β)}
    (habsorbs : Absorbs ring items outcome.ring outcome.events) (operation : Operation)
    (line : UInt32) :
    Absorbs ring items (outcome.tracked operation line).ring
      (outcome.tracked operation line).events := by
  obtain ⟨fault | result, next, events⟩ := outcome
  · refine ⟨habsorbs.inRange, habsorbs.capacity_eq, ?_, habsorbs.kept⟩
    have hrecord : (events ++ [Event.failed operation fault line]).filterMap Event.evicted? =
        events.filterMap Event.evicted? := by
      rw [List.filterMap_append]
      exact List.append_nil _
    exact (congrArg (· ++ _) hrecord).trans habsorbs.conserved
  · exact habsorbs

theorem limit_eq (habsorbs : Absorbs ring items next events) : next.limit = ring.limit := by
  rw [limit, habsorbs.capacity_eq, limit]

theorem trans (hfirst : Absorbs ring items middle events)
    (hsecond : Absorbs middle more next later) :
    Absorbs ring (items ++ more) next (events ++ later) where
  inRange := hsecond.inRange
  capacity_eq := hsecond.capacity_eq.trans hfirst.capacity_eq
  conserved := by
    rw [List.filterMap_append, List.append_assoc, hsecond.conserved, ← List.append_assoc,
      hfirst.conserved, List.append_assoc]
  kept := by
    rw [hsecond.kept, hfirst.kept, hfirst.limit_eq, List.length_append]
    omega

theorem length_evicted (habsorbs : Absorbs ring items next events) :
    (events.filterMap Event.evicted?).length =
      (ring.contents ++ items).length - ring.limit := by
  have hlength := congrArg List.length habsorbs.conserved
  have hkept := habsorbs.kept
  simp only [List.length_append] at hlength ⊢
  omega

theorem evicted_eq (habsorbs : Absorbs ring items next events) :
    events.filterMap Event.evicted? =
      (ring.contents ++ items).take ((ring.contents ++ items).length - ring.limit) := by
  rw [← habsorbs.length_evicted, ← habsorbs.conserved, List.take_left]

theorem contents_eq (habsorbs : Absorbs ring items next events) :
    next.contents =
      (ring.contents ++ items).drop ((ring.contents ++ items).length - ring.limit) := by
  rw [← habsorbs.length_evicted, ← habsorbs.conserved, List.drop_left]

theorem contents_eq_rtake (habsorbs : Absorbs ring items next events) :
    next.contents =
      (ring.contents ++ items).rtake (min ring.limit (ring.contents.length + items.length)) := by
  rw [habsorbs.contents_eq, List.rtake, List.length_append]
  congr 1
  omega

theorem of_fits (habsorbs : Absorbs ring items next events)
    (hfits : ring.contents.length + items.length ≤ ring.limit) :
    next.contents = ring.contents ++ items ∧ events.filterMap Event.evicted? = [] := by
  have hnone : (ring.contents ++ items).length - ring.limit = 0 := by
    rw [List.length_append]
    omega
  rw [habsorbs.contents_eq, habsorbs.evicted_eq, hnone]
  exact ⟨rfl, rfl⟩

end Absorbs

section

variable {ring : Ring α} (hrange : ring.inRange = true)

include hrange

theorem absorbs_accept (hroom : ring.contents.length < ring.limit) (item : α) :
    Absorbs ring [item] (ring.accept item).ring (ring.accept item).events := by
  have hlength := length_contents_of_inRange hrange
  unfold limit at hroom
  obtain ⟨hafter, hcontents⟩ := contents_accept hrange (by omega) item
  constructor
  case inRange => exact hafter
  case capacity_eq => exact capacity_accept ring item
  case conserved => exact hcontents
  case kept =>
    rw [hcontents, List.length_append, List.length_singleton]
    unfold limit
    omega

theorem absorbs_replace {slots : Slots α} (hslots : ring.storage = .lent slots)
    (hfull : ring.span.toNat + 1 = slots.cells.size) (hmany : 2 ≤ slots.cells.size) (item : α) :
    Absorbs ring [item] (ring.release.accept item).ring
      (.evicted (slots.read ring.consumer) (slots.slotOf ring.consumer) ::
        (ring.release.accept item).events) := by
  have hlength := length_contents_of_inRange hrange
  have hcapacity := toNat_capacity_of_slots hslots
  have hcons := contents_eq_cons hslots hrange (by omega)
  obtain ⟨hafter, hcontents⟩ := contents_replace hslots hrange hfull hmany item
  constructor
  case inRange => exact hafter
  case capacity_eq => rw [capacity_accept, capacity_release]
  case conserved =>
    show slots.read ring.consumer :: (ring.release.accept item).ring.contents = _
    rw [hcontents, ← List.cons_append, ← hcons]
  case kept =>
    rw [hcontents, List.length_append, List.length_tail, List.length_singleton]
    unfold limit
    omega

/-- An attempt brings its item in, unless the ring is full and may not drop any. -/
theorem absorbs_offer (hmany : 2 ≤ ring.capacity.toNat) (item : α) (mode : Bool) :
    let outcome := ring.offer item mode
    (mode = true ∨ ring.contents.length < ring.limit) ∧ outcome.result = .ok () ∧
        Absorbs ring [item] outcome.ring outcome.events ∨
      mode = false ∧ ring.contents.length = ring.limit ∧ outcome.result = .error .full ∧
        Absorbs ring [] outcome.ring outcome.events := by
  dsimp only
  have hlength := length_contents_of_inRange hrange
  have hend := offered ring item mode
  generalize ring.offer item mode = outcome at hend ⊢
  cases hend with
  | inert hslots => exact absurd hslots (slots?_of_inRange hrange _)
  | corrupted _ hbad => simp [hrange] at hbad
  | full hslots _ hfull hmode =>
      have hcapacity := toNat_capacity_of_slots hslots
      have hoff : mode = false := by
        apply hmode.resolve_right
        omega
      refine Or.inr ⟨hoff, ?_, rfl, ?_⟩
      · unfold limit
        omega
      · exact .nothing hrange rfl rfl rfl
  | replaced hslots _ hfull hmode hlarge =>
      exact Or.inl ⟨Or.inl hmode, rfl, absorbs_replace hrange hslots hfull hlarge item⟩
  | accepted hslots _ hroom =>
      have hcapacity := toNat_capacity_of_slots hslots
      have hless : ring.contents.length < ring.limit := by
        unfold limit
        omega
      exact Or.inl ⟨Or.inr hless, rfl, absorbs_accept hrange hless item⟩

end

/-- How many of some items a ring takes in: as many as fit, or all if it may drop old ones. -/
def admits (mode : Bool) (items : List α) (ring : Ring α) : Nat :=
  if mode then items.length else min items.length (ring.limit - ring.contents.length)

theorem admits_of_fits {ring : Ring α} {items : List α}
    (hfits : ring.contents.length + items.length ≤ ring.limit) (mode : Bool) :
    ring.admits mode items = items.length := by
  unfold admits
  split
  · rfl
  · omega

/-- After an item that a ring took in, it takes in one fewer of those behind it. -/
theorem Absorbs.admits_cons {ring next : Ring α} {item : α} {events : List (Event α)}
    {mode : Bool} (habsorbs : Absorbs ring [item] next events)
    (hmode : mode = true ∨ ring.contents.length < ring.limit) (later : List α) :
    ring.admits mode (item :: later) = next.admits mode later + 1 := by
  have hkept := habsorbs.kept
  rw [List.length_singleton] at hkept
  unfold admits
  cases mode with
  | true => rfl
  | false =>
      have hroom : ring.contents.length < ring.limit := hmode.resolve_left (by decide)
      simp only [Bool.false_eq_true, if_false, habsorbs.limit_eq, hkept, List.length_cons]
      omega

theorem absorbs_offerEach (mode : Bool) (items : List α) {ring : Ring α}
    (hrange : ring.inRange = true) (hmany : 2 ≤ ring.capacity.toNat) :
    let outcome := offerEach mode items ring
    outcome.result.1 = ring.admits mode items ∧
      Absorbs ring (items.take (ring.admits mode items)) outcome.ring outcome.events := by
  induction items generalizing ring with
  | nil =>
      have hnone : ring.admits mode [] = 0 := by simp [admits]
      rw [hnone]
      exact ⟨rfl, .nothing hrange rfl rfl rfl⟩
  | cons item later ih =>
      have hstep := absorbs_offer hrange hmany item mode
      rw [offerEach]
      generalize ring.offer item mode = outcome at hstep
      obtain ⟨result, next, events⟩ := outcome
      dsimp only at hstep
      rcases hstep with ⟨hmode, hresult, habsorbs⟩ | ⟨hmode, hfull, hresult, habsorbs⟩
      · subst hresult
        have hmore : 2 ≤ next.capacity.toNat := by
          rw [habsorbs.capacity_eq]
          exact hmany
        -- The rest goes into the ring that this item left, one place fuller or as full as ever.
        obtain ⟨hcount, hlater⟩ := ih habsorbs.inRange hmore
        have hone := habsorbs.admits_cons hmode later
        rw [hone, List.take_succ_cons]
        exact ⟨congrArg Nat.succ hcount, habsorbs.trans hlater⟩
      · subst hresult
        have hnone : ring.admits mode (item :: later) = 0 := by
          simp [admits, hmode, hfull]
        rw [hnone]
        exact ⟨rfl, habsorbs⟩

/-! ## Items going out -/

theorem takeEach_eq_take (count : Nat) {ring : Ring α} (hrange : ring.inRange = true) :
    let outcome := takeEach count ring
    outcome.result.1 = ring.contents.take count ∧ outcome.ring.inRange = true ∧
      outcome.ring.contents = ring.contents.drop count := by
  induction count generalizing ring with
  | zero => exact ⟨rfl, hrange, rfl⟩
  | succ count ih =>
      have hstep := matches_take hrange
      rw [takeEach]
      generalize ring.take = outcome at hstep
      obtain ⟨result, next, events⟩ := outcome
      obtain ⟨hresult, hafter, hqueue⟩ := hstep
      cases hcontents : ring.contents with
      | nil =>
          simp only [queue, hcontents, BoundedQueue.remove] at hresult hqueue
          subst hresult
          exact ⟨rfl, hafter, congrArg BoundedQueue.items hqueue⟩
      | cons item later =>
          simp only [queue, hcontents, BoundedQueue.remove] at hresult hqueue
          subst hresult
          obtain ⟨hitems, hfinal, hrest⟩ := ih hafter
          have hlater : next.contents = later := congrArg BoundedQueue.items hqueue
          rw [hlater] at hitems hrest
          refine ⟨?_, hfinal, hrest⟩
          exact congrArg (item :: ·) hitems

/-! ## Bulk calls -/

theorem Absorbs.length_pos {ring next : Ring α} {items : List α} {events : List (Event α)}
    {mode : Bool} (habsorbs : Absorbs ring (items.take (ring.admits mode items)) next events)
    (hmany : 2 ≤ ring.capacity.toNat) (hitems : items ≠ []) : 0 < next.contents.length := by
  have hpos : 0 < items.length := List.length_pos_iff.mpr hitems
  have hkept := habsorbs.kept
  rw [List.length_take] at hkept
  unfold admits limit at hkept
  split at hkept <;> omega

theorem eq_ok_of_countOf {result : Except Fault Nat} {count : Nat}
    (hcount : countOf result = count) (hsome : 0 < count) : result = .ok count := by
  cases result with
  | error fault => exact absurd hcount (Nat.ne_of_lt hsome)
  | ok moved => exact congrArg Except.ok hcount

theorem contents_tracked {β : Type} (outcome : Outcome α (Except Fault β)) (operation : Operation)
    (line : UInt32) : (outcome.tracked operation line).ring.contents = outcome.ring.contents := by
  rcases outcome with ⟨_ | _, ring, events⟩ <;> rfl

theorem countOf_countMoved {β : Type} (moved : List β × Option Fault) :
    countOf (countMoved moved) = moved.1.length := by
  obtain ⟨_ | ⟨result, results⟩, _ | fault⟩ := moved <;> rfl

section

variable {ring : Ring α} (hrange : ring.inRange = true)

include hrange

theorem absorbs_insertMany (hmany : 2 ≤ ring.capacity.toNat) {items : List α}
    (hitems : items ≠ []) (line : UInt32) :
    let outcome := ring.insertMany items line
    countOf outcome.result = ring.admits ring.overwrite items ∧
      Absorbs ring (items.take (ring.admits ring.overwrite items)) outcome.ring
        outcome.events := by
  obtain ⟨slots, hslots⟩ := exists_slots_of_inRange hrange
  obtain ⟨hcount, habsorbs⟩ := absorbs_offerEach ring.overwrite items hrange hmany
  rw [offerEach_eq] at hcount habsorbs
  rw [insertMany_eq hslots line hitems]
  refine ⟨?_, Absorbs.tracked habsorbs .insertMany line⟩
  rw [Outcome.result_tracked, ← hcount]
  exact countOf_countMoved _

theorem count_removeMany {buffer : List α} (hbuffer : buffer ≠ []) (line : UInt32) :
    countOf (ring.removeMany buffer line).result.1 = min buffer.length ring.contents.length := by
  obtain ⟨slots, hslots⟩ := exists_slots_of_inRange hrange
  obtain ⟨hitems, -, -⟩ := takeEach_eq_take buffer.length hrange
  have hresult := congrArg Outcome.result (fst_removeMany hslots line hbuffer)
  rw [Outcome.result_tracked, ← takeEach_eq] at hresult
  calc countOf (ring.removeMany buffer line).result.1
      = countOf (countMoved (takeEach buffer.length ring).result) := congrArg countOf hresult
    _ = (ring.contents.take buffer.length).length := by rw [countOf_countMoved, hitems]
    _ = min buffer.length ring.contents.length := List.length_take

theorem filled_removeMany {buffer : List α} (hbuffer : buffer ≠ []) (line : UInt32) :
    (ring.removeMany buffer line).result.2 =
      ring.contents.take buffer.length ++
        buffer.drop (min buffer.length ring.contents.length) := by
  obtain ⟨slots, hslots⟩ := exists_slots_of_inRange hrange
  obtain ⟨hitems, -, -⟩ := takeEach_eq_take buffer.length hrange
  rw [cells_removeMany hslots line hbuffer, ← takeEach_eq, hitems, fillFront, List.length_take]

theorem contents_removeMany {buffer : List α} (hbuffer : buffer ≠ []) (line : UInt32) :
    (ring.removeMany buffer line).ring.contents = ring.contents.drop buffer.length := by
  obtain ⟨slots, hslots⟩ := exists_slots_of_inRange hrange
  obtain ⟨-, -, hrest⟩ := takeEach_eq_take buffer.length hrange
  rw [← hrest, removeMany_eq hslots line hbuffer, ← takeEach_eq]
  exact contents_tracked _ .removeMany line

/-- A ring that may drop nothing takes in the items that fit behind those it holds. -/
theorem insertMany_of_keeping (hmany : 2 ≤ ring.capacity.toNat) (hmode : ring.overwrite = false)
    {items : List α} (hitems : items ≠ []) (line : UInt32) :
    let fitting := min items.length (ring.limit - ring.contents.length)
    countOf (ring.insertMany items line).result = fitting ∧
      (ring.insertMany items line).ring.contents = ring.contents ++ items.take fitting ∧
      (ring.insertMany items line).events.filterMap Event.evicted? = [] := by
  intro fitting
  obtain ⟨hcount, habsorbs⟩ := absorbs_insertMany hrange hmany hitems line
  have hadmits : ring.admits ring.overwrite items = fitting := by
    rw [hmode]
    rfl
  rw [hadmits] at hcount habsorbs
  have hmost := length_contents_le_limit hrange
  have hfits : ring.contents.length + (items.take fitting).length ≤ ring.limit := by
    rw [List.length_take]
    omega
  exact ⟨hcount, habsorbs.of_fits hfits⟩

/-- A ring that may drop old items takes in all items and keeps the latest of everything. -/
theorem insertMany_of_dropping (hmany : 2 ≤ ring.capacity.toNat) (hmode : ring.overwrite = true)
    {items : List α} (hitems : items ≠ []) (line : UInt32) :
    let total := ring.contents.length + items.length
    (ring.insertMany items line).result = .ok items.length ∧
      (ring.insertMany items line).ring.contents =
        (ring.contents ++ items).rtake (min ring.limit total) ∧
      (ring.insertMany items line).events.filterMap Event.evicted? =
        (ring.contents ++ items).take (total - ring.limit) := by
  intro total
  obtain ⟨hcount, habsorbs⟩ := absorbs_insertMany hrange hmany hitems line
  have hadmits : ring.admits ring.overwrite items = items.length := by
    rw [hmode]
    rfl
  rw [hadmits] at hcount habsorbs
  rw [List.take_length] at habsorbs
  have hresult := eq_ok_of_countOf hcount (List.length_pos_iff.mpr hitems)
  have hevicted := habsorbs.evicted_eq
  rw [List.length_append] at hevicted
  exact ⟨hresult, habsorbs.contents_eq_rtake, hevicted⟩

/-- A ring that holds something gives the oldest items, and fails only if it holds nothing. -/
theorem result_removeMany (hsome : 0 < ring.contents.length) {buffer : List α}
    (hbuffer : buffer ≠ []) (line : UInt32) :
    let count := min buffer.length ring.contents.length
    (ring.removeMany buffer line).result =
      (.ok count, ring.contents.take count ++ buffer.drop count) := by
  intro count
  have hcount := count_removeMany hrange hbuffer line
  have hpos : 0 < buffer.length := List.length_pos_iff.mpr hbuffer
  have hmoved := eq_ok_of_countOf hcount (by omega)
  have htake : ring.contents.take count = ring.contents.take buffer.length := by
    rw [List.take_eq_take_iff]
    omega
  rw [htake]
  exact Prod.ext hmoved (filled_removeMany hrange hbuffer line)

end

/-- Whatever number of items goes into a ring in one call, what is left in it and what was
dropped are the two parts of what it held and what came in, cut where its limit says. Without
dropping, it takes in what fits behind what it holds. With dropping, it takes in everything and
keeps the latest of it all. Items taken out again are the oldest, at the front of the buffer,
and the cells behind them are as they were; so a list that fits into an empty ring comes out as
it went in. -/
theorem bulk_transfer_closed_form {ring : Ring α} (hrange : ring.inRange = true)
    (hmany : 2 ≤ ring.capacity.toNat) {items : List α} (hitems : items ≠ []) (line : UInt32) :
    let most := ring.capacity.toNat - 1
    let inserted := ring.insertMany items line
    let evicted := inserted.events.filterMap Event.evicted?
    let held := inserted.ring.contents
    let free := most - ring.contents.length
    let total := ring.contents.length + items.length
    (ring.overwrite = false → countOf inserted.result = min items.length free ∧
        held = ring.contents ++ items.take (min items.length free) ∧ evicted = []) ∧
      (ring.overwrite = true → inserted.result = .ok items.length ∧
        held = (ring.contents ++ items).rtake (min most total) ∧
        evicted = (ring.contents ++ items).take (total - most)) ∧
      inserted.ring.inRange = true ∧
      ∀ buffer : List α, buffer ≠ [] → ∀ caller,
        let removed := inserted.ring.removeMany buffer caller
        let count := min buffer.length held.length
        removed.result = (.ok count, held.take count ++ buffer.drop count) ∧
          removed.ring.contents = held.drop buffer.length ∧
          (ring.contents = [] → items.length ≤ most → buffer.length = items.length →
            removed.result = (.ok items.length, items)) := by
  intro most inserted evicted held free total
  obtain ⟨-, habsorbs⟩ := absorbs_insertMany hrange hmany hitems line
  have hheld : 0 < held.length := habsorbs.length_pos hmany hitems
  refine ⟨fun hmode => insertMany_of_keeping hrange hmany hmode hitems line,
    fun hmode => insertMany_of_dropping hrange hmany hmode hitems line, habsorbs.inRange, ?_⟩
  intro buffer hbuffer caller removed count
  have hresult : removed.result = (.ok count, held.take count ++ buffer.drop count) :=
    result_removeMany habsorbs.inRange hheld hbuffer caller
  refine ⟨hresult, contents_removeMany habsorbs.inRange hbuffer caller, ?_⟩
  intro hempty hfits hlength
  have hroom : ring.contents.length + items.length ≤ ring.limit := by
    rw [hempty, List.length_nil, Nat.zero_add]
    exact hfits
  rw [admits_of_fits hroom, List.take_length] at habsorbs
  have hitself : held = items := by
    obtain ⟨hcontents, -⟩ := habsorbs.of_fits hroom
    rwa [hempty, List.nil_append] at hcontents
  have hcount : count = buffer.length := by
    simp only [count, hitself, hlength, Nat.min_self]
  rw [hresult, hcount, hitself, hlength, List.take_length, ← hlength, List.drop_length,
    List.append_nil]

def spilling : Ring Nat := { Session.astride.ring with overwrite := true }

def drained : Ring Nat := { Session.astride.ring with consumer := 1 }

theorem bulk_transfer_closed_form_lap :
    let spilled := spilling.insertMany [30, 40, 50, 60] 4
    let kept := oneShort.insertMany [30, 40] 4
    let whole := drained.insertMany [70, 80] 4
    (spilling.inRange = true ∧ 2 ≤ spilling.capacity.toNat ∧ [30, 40, 50, 60] ≠ [] ∧
        spilling.overwrite = true ∧ spilled.result = .ok 4 ∧ spilled.ring.contents = [50, 60] ∧
        spilled.events.filterMap Event.evicted? = [10, 20, 30, 40] ∧
        (spilled.ring.removeMany [0, 0, 0] 5).result = (.ok 2, [50, 60, 0])) ∧
      (oneShort.inRange = true ∧ 2 ≤ oneShort.capacity.toNat ∧ [30, 40] ≠ [] ∧
        oneShort.overwrite = false ∧ kept.ring.contents = [10, 30]) ∧
      (drained.inRange = true ∧ 2 ≤ drained.capacity.toNat ∧ [70, 80] ≠ [] ∧
        drained.contents = [] ∧ (whole.ring.removeMany [0, 0] 5).result = (.ok 2, [70, 80])) := by
  intro spilled kept whole
  have hitems : [30, 40, 50, 60] ≠ [] := by decide
  have hpair : [30, 40] ≠ [] := by decide
  have hother : [70, 80] ≠ [] := by decide
  have hbuffer : [0, 0, 0] ≠ [] := by decide
  have hcells : [0, 0] ≠ [] := by decide
  have hmany : 2 ≤ spilling.capacity.toNat := by decide
  have hmore : 2 ≤ oneShort.capacity.toNat := by decide
  have hlarge : 2 ≤ drained.capacity.toNat := by decide
  obtain ⟨-, hdropping, -, hremoves⟩ := bulk_transfer_closed_form rfl hmany hitems 4
  obtain ⟨hkeeping, -, -, -⟩ := bulk_transfer_closed_form rfl hmore hpair 4
  obtain ⟨-, -, -, hwhole⟩ := bulk_transfer_closed_form rfl hlarge hother 4
  obtain ⟨hresult, hheld, hevicted⟩ := hdropping rfl
  exact ⟨⟨rfl, hmany, hitems, rfl, hresult, hheld, hevicted, (hremoves _ hbuffer 5).1⟩,
    ⟨rfl, hmore, hpair, rfl, (hkeeping rfl).2.1⟩,
    rfl, hlarge, hother, rfl, (hwhole _ hcells 5).2.2 rfl (by decide) rfl⟩

end Ring

end SpscRing
