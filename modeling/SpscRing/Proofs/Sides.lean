import Mathlib.Logic.Function.Iterate
import SpscRing.Proofs.BulkTransfer
import SpscRing.Proofs.Failures
import SpscRing.Proofs.Interleaving
import SpscRing.Proofs.Unhindered
/-!
# The two sides of a ring

An insert that finds room writes a slot that no remove reads until it is told of it, and moves an
index that no remove moves; a remove that finds an item moves the other. So as long as neither
side is held up by the other, it makes no difference which of them goes first, even where the
items lie across the end of the memory or of the lap. Only the peak can tell.
-/

namespace SpscRing

variable {α : Type}

/-! ## What either side does -/

namespace Ring

variable {ring next : Ring α} {events : List (Event α)}

def peakless (ring : Ring α) : Ring α := ring.count fun counters => { counters with peak := 0 }

/-- A ring without its peak and its record of failures. -/
def core (ring : Ring α) : Ring α := (ring.seen true).peakless

def put (ring : Ring α) (item : α) : Ring α := (ring.accept item).ring.core

def pull (ring : Ring α) : Ring α := (ring.release.count .countRemove).core

theorem put_eq (ring : Ring α) (item : α) :
    ring.put item =
      ({ ring with
        storage := ring.storage.write ring.producer item
        producer := Index.next ring.producer ring.lap }.count fun counters =>
          { counters with inserts := counters.inserts + 1 }).core := by
  rcases ring with ⟨_, _, _, _, _, _, _ | counters⟩ <;> rfl

theorem pull_eq (ring : Ring α) :
    ring.pull =
      ({ ring with consumer := Index.next ring.consumer ring.lap }.count .countRemove).core := by
  rw [pull, release_eq]

@[simp] theorem lap_put (ring : Ring α) (item : α) : (ring.put item).lap = ring.lap :=
  lap_accept ring item

@[simp] theorem lap_pull (ring : Ring α) : ring.pull.lap = ring.lap :=
  lap_release ring

/-- Whatever ring the two are made on, they can change places: the slot written is named by the
one index, and the other index is all that the second of them moves. -/
theorem put_pull (ring : Ring α) (item : α) : ring.pull.put item = (ring.put item).pull := by
  rw [put_eq, pull_eq (ring.put item), lap_pull, lap_put, pull_eq, put_eq]
  rcases ring with ⟨_, _, _, _, _, _, _ | counters⟩ <;> rfl

/-- Neither side looks at the peak or at the record of failures. -/
@[simp] theorem put_core (ring : Ring α) (item : α) : ring.core.put item = ring.put item := by
  rw [put_eq, put_eq]
  rcases ring with ⟨_, _, _, _, _, _, _ | counters⟩ <;> rfl

@[simp] theorem pull_core (ring : Ring α) : ring.core.pull = ring.pull := by
  rw [pull_eq, pull_eq]
  rcases ring with ⟨_, _, _, _, _, _, _ | counters⟩ <;> rfl

@[simp] theorem core_core (ring : Ring α) : ring.core.core = ring.core := by
  rcases ring with ⟨_, _, _, _, _, _, _ | counters⟩ <;> rfl

def worked (ring : Ring α) (items : List α) (out : Nat) : Ring α :=
  items.foldl put (pull^[out] ring.core)

@[simp] theorem core_put (ring : Ring α) (item : α) : (ring.put item).core = ring.put item :=
  core_core _

@[simp] theorem core_pull (ring : Ring α) : ring.pull.core = ring.pull := core_core _

theorem core_worked (ring : Ring α) (items : List α) (out : Nat) :
    (ring.worked items out).core = ring.worked items out := by
  have hpulled : (pull^[out] ring.core).core = pull^[out] ring.core := by
    cases out with
    | zero => exact core_core ring
    | succ out => rw [Function.iterate_succ_apply', core_pull]
  rcases List.eq_nil_or_concat items with rfl | ⟨earlier, last, rfl⟩
  · exact hpulled
  · rw [worked, List.concat_eq_append, List.foldl_append, List.foldl_cons, List.foldl_nil, core_put]

theorem foldl_put_pull (ring : Ring α) (items : List α) (out : Nat) :
    items.foldl put (pull^[out] ring) = pull^[out] (items.foldl put ring) := by
  refine List.foldl_hom pull^[out] fun ring item => ?_
  have hcommute : Function.Commute pull fun ring : Ring α => ring.put item :=
    fun ring => (ring.put_pull item).symm
  exact (hcommute.iterate_left out ring).symm

/-- What goes out later can as well go out before. -/
theorem worked_worked (ring : Ring α) (items more : List α) (out further : Nat) :
    (ring.worked items out).worked more further = ring.worked (items ++ more) (out + further) := by
  rw [worked, core_worked, worked, worked, ← foldl_put_pull, ← Function.iterate_add_apply,
    ← List.foldl_append, Nat.add_comm further]

theorem worked_core (ring : Ring α) (items : List α) (out : Nat) :
    ring.core.worked items out = ring.worked items out := by
  rw [worked, core_core, worked]

/-- Where neither side is held up, a change does no more than put an item in or take one out. -/
theorem Move.core_eq (hmove : Move false ring events next) (hfree : Unhindered events) :
    next.core = ring.worked (arrivals events) (departures events).length := by
  cases hmove with
  | offer _ item =>
      have hend := ring.offered item ring.overwrite
      generalize ring.offer item ring.overwrite = outcome at hend hfree ⊢
      cases hend with
      | inert | corrupted => rfl
      | full | replaced => cases hfree _ List.mem_cons_self
      | accepted => exact (put_core ring item).symm
  | take =>
      have hend := ring.taken
      generalize ring.take = outcome at hend hfree ⊢
      cases hend with
      | inert | corrupted => rfl
      | empty => cases hfree _ List.mem_cons_self
      | delivered => exact (pull_core ring).symm
  | check =>
      have hend := ring.checked
      generalize ring.integrity = outcome at hend ⊢
      cases hend with
      | inert | corrupted | sound => rfl
  | fail | giveUp => rfl
  | force hstray => cases hstray

/-- Where neither side is held up, all that a course makes of a ring is what either side did,
and not in which order. -/
theorem Course.core_eq (hcourse : Course (Move false) ring events next)
    (hfree : Unhindered events) :
    next.core = ring.worked (arrivals events) (departures events).length := by
  induction hcourse with
  | rest => rfl
  | step _ hmove ih =>
      obtain ⟨hearlier, hlater⟩ := unhindered_append.mp hfree
      rw [hmove.core_eq hlater, ← worked_core, ih hearlier, worked_worked, arrivals_append,
        departures_append, List.length_append]

end Ring

/-! ## Bulk calls with room and items enough -/

namespace Ring

theorem latch_insertMany {ring : Ring α} {items : List α} {line : UInt32} {count : Nat}
    (hresult : (ring.insertMany items line).result = .ok count) :
    (ring.insertMany items line).ring.latch = ring.latch := by
  have hlatch := ring.latch_offerAll items
  unfold insertMany at hresult ⊢
  generalize ring.offerAll items = outcome at hlatch hresult ⊢
  rcases outcome with ⟨fault | _, next, events⟩
  · cases hresult
  · exact hlatch

theorem latch_removeMany {ring : Ring α} {buffer : List α} {line : UInt32} {count : Nat}
    (hresult : (ring.removeMany buffer line).result.1 = .ok count) :
    (ring.removeMany buffer line).ring.latch = ring.latch := by
  have hlatch := ring.latch_takeAll buffer.length
  rw [removeMany_eq_takeAll] at hresult ⊢
  generalize ring.takeAll buffer.length = outcome at hlatch hresult ⊢
  rcases outcome with ⟨fault | _, next, events⟩
  · cases hresult
  · exact hlatch

theorem logLines_offerEach (mode : Bool) (items : List α) {ring : Ring α}
    (hrange : ring.inRange = true) (hfits : ring.contents.length + items.length ≤ ring.limit) :
    logLines (offerEach mode items ring).events = [] := by
  induction items generalizing ring with
  | nil => rfl
  | cons item later ih =>
      rw [List.length_cons] at hfits
      have hroom : ring.span.toNat + 1 < ring.capacity.toNat := by
        rw [length_contents_of_inRange hrange] at hfits
        unfold limit at hfits
        omega
      obtain ⟨hafter, hcontents⟩ := contents_accept hrange hroom item
      rw [offerEach, offer_of_room hrange hroom]
      have hafterwards : (ring.accept item).ring.contents.length + later.length ≤
          (ring.accept item).ring.limit := by
        rw [hcontents, List.length_append, List.length_singleton, limit, capacity_accept]
        unfold limit at hfits
        omega
      exact ih hafter hafterwards

theorem logLines_takeEach (limit : Nat) {ring : Ring α} (hrange : ring.inRange = true)
    (hsome : limit ≤ ring.contents.length) : logLines (takeEach limit ring).events = [] := by
  induction limit generalizing ring with
  | zero => rfl
  | succ limit ih =>
      obtain ⟨slots, hslots⟩ := exists_slots_of_inRange hrange
      have hheld : 0 < ring.span.toNat := by
        rw [length_contents_of_inRange hrange] at hsome
        omega
      obtain ⟨hafter, hcontents⟩ := contents_release hrange hheld
      rw [takeEach, take_of_some hslots hrange hheld]
      refine ih hafter ?_
      rw [contents_count, hcontents, List.length_tail]
      omega

theorem insertManyCount_of_fits {ring : Ring α} (hrange : ring.inRange = true) {items : List α}
    (hitems : items ≠ []) (hfits : items.length ≤ ring.freeSpace.toNat) (line : UInt32) :
    let outcome := ring.insertManyCount items line
    outcome.result = items.length ∧ outcome.ring.inRange = true ∧
      outcome.ring.contents = ring.contents ++ items ∧ outcome.ring.latch = ring.latch ∧
      logLines outcome.events = [] := by
  obtain ⟨slots, hslots⟩ := exists_slots_of_inRange hrange
  have hpos : 0 < items.length := List.length_pos_iff.mpr hitems
  rw [toNat_freeSpace hrange, ← length_contents_of_inRange hrange] at hfits
  have hroom : ring.contents.length + items.length ≤ ring.limit := by
    unfold limit
    omega
  obtain ⟨hcount, habsorbs⟩ := absorbs_insertMany hrange (by omega) hitems line
  rw [admits_of_fits hroom] at hcount habsorbs
  rw [List.take_length] at habsorbs
  have hlatch := latch_insertMany (eq_ok_of_countOf hcount hpos)
  have hlog : logLines (ring.insertMany items line).events = [] := by
    rw [insertMany, Outcome.logLines_tracked, events_offerAll hslots]
    exact logLines_offerEach _ _ hrange hroom
  exact ⟨hcount, habsorbs.inRange, (habsorbs.of_fits hroom).1, hlatch, hlog⟩

theorem removeManyCount_of_held {ring : Ring α} (hrange : ring.inRange = true) {buffer : List α}
    (hbuffer : buffer ≠ []) (hheld : buffer.length ≤ ring.occupancy.toNat) (line : UInt32) :
    let outcome := ring.removeManyCount buffer line
    outcome.result = (buffer.length, ring.contents.take buffer.length) ∧
      outcome.ring.inRange = true ∧
      outcome.ring.contents = ring.contents.drop buffer.length ∧ outcome.ring.latch = ring.latch ∧
      logLines outcome.events = [] := by
  obtain ⟨slots, hslots⟩ := exists_slots_of_inRange hrange
  have hpos : 0 < buffer.length := List.length_pos_iff.mpr hbuffer
  rw [← length_contents] at hheld
  have hall : min buffer.length ring.contents.length = buffer.length := Nat.min_eq_left hheld
  have hresult : (ring.removeMany buffer line).result =
      (.ok buffer.length, ring.contents.take buffer.length) := by
    have hcount := result_removeMany hrange (by omega) hbuffer line
    dsimp only at hcount
    rwa [hall, List.drop_length, List.append_nil] at hcount
  have hlog : logLines (ring.removeMany buffer line).events = [] := by
    rw [events_removeMany, Outcome.logLines_tracked, events_takeAll hslots]
    exact logLines_takeEach _ hrange hheld
  have hsteady : (SharedCall.removeManyCount buffer line).steady = true := rfl
  have hcells : (ring.removeManyCount buffer line).result =
      (buffer.length, ring.contents.take buffer.length) :=
    congrArg (fun result => (countOf result.1, result.2)) hresult
  exact ⟨hcells, (SharedCall.since_run hsteady hrange).inRange,
    contents_removeMany hrange hbuffer line, latch_removeMany (congrArg Prod.fst hresult), hlog⟩

end Ring

/-! ## The sides in any order -/

namespace SharedCall

/-- What a run in which neither side is held up makes of a ring, and what it hands out, is said
by what the calls of either side bring and ask for. -/
theorem worked_runAll {calls : List (SharedCall α)} (hsteady : ∀ call ∈ calls, call.steady = true)
    {ring : Ring α} (hrange : ring.inRange = true) (hfree : Unhindered (runAll calls ring).events) :
    let run := runAll calls ring
    let items := (calls.filter isInsertion).flatMap brings
    let out := ((calls.filter isRemoval).map asks).sum
    run.ring.core = ring.worked items out ∧
      (transfersAll calls run.result).filterMap Transfer.delivered? =
        (ring.contents ++ items).take out := by
  intro run items out
  obtain ⟨harrivals, hdepartures⟩ := carries_runAll hsteady hrange hfree
  have hmoves : Ring.Course (Ring.Move false) ring run.events run.ring :=
    moves_runAll (fun call hcall => call.moves_run (.inr (hsteady call hcall))) ring
  have hcourse : Ring.Course (Ring.Change false) ring run.events run.ring :=
    hmoves.mono fun _ _ _ => .move
  have htold := transfers_runAll (fun call (_ : call ∈ calls) => call.transfers_run) ring
  rw [← brings_filter] at harrivals
  rw [← asks_filter] at hdepartures
  constructor
  · rw [hmoves.core_eq hfree, harrivals, hdepartures]
  · rw [← htold, delivered_transfers, (hcourse.since hrange).delivered_eq hfree, harrivals,
      hdepartures]

theorem runs_commute {ring : Ring α} (hrange : ring.inRange = true)
    {calls others : List (SharedCall α)} (hcalls : ∀ call ∈ calls, call.steady = true)
    (hothers : ∀ call ∈ others, call.steady = true)
    (hinsertions : calls.filter isInsertion = others.filter isInsertion)
    (hremovals : calls.filter isRemoval = others.filter isRemoval)
    (hfree : Unhindered (runAll calls ring).events)
    (hother : Unhindered (runAll others ring).events) :
    (transfersAll calls (runAll calls ring).result).filterMap Transfer.delivered? =
        (transfersAll others (runAll others ring).result).filterMap Transfer.delivered? ∧
      (runAll calls ring).ring.core = (runAll others ring).ring.core := by
  obtain ⟨hring, hitems⟩ := worked_runAll hcalls hrange hfree
  obtain ⟨hotherRing, hotherItems⟩ := worked_runAll hothers hrange hother
  rw [hinsertions, hremovals] at hring hitems
  exact ⟨hitems.trans hotherItems.symm, hring.trans hotherRing.symm⟩

end SharedCall

namespace Ring

theorem peakless_eq_of_core {first second : Ring α} (hcore : first.core = second.core)
    (hlatch : first.latch = second.latch) : first.peakless = second.peakless := by
  have hsame : first.peakless.seen true = second.peakless.seen true := hcore
  rw [eq_of_seen hsame, show first.peakless.latch = second.peakless.latch from hlatch]

theorem bulk_calls_commute {ring : Ring α} (hrange : ring.inRange = true) {items buffer : List α}
    (hitems : items ≠ []) (hfits : items.length ≤ ring.freeSpace.toNat) (hbuffer : buffer ≠ [])
    (hheld : buffer.length ≤ ring.occupancy.toNat) (line caller : UInt32) :
    let inserted := ring.insertManyCount items line
    let thenRemoved := inserted.ring.removeManyCount buffer caller
    let removed := ring.removeManyCount buffer caller
    let thenInserted := removed.ring.insertManyCount items line
    inserted.result = items.length ∧ thenInserted.result = items.length ∧
      thenRemoved.result.1 = buffer.length ∧ removed.result.1 = buffer.length ∧
      thenRemoved.result.2 = removed.result.2 ∧
      thenRemoved.ring.peakless = thenInserted.ring.peakless ∧
      logLines (inserted.events ++ thenRemoved.events) = [] ∧
      logLines (removed.events ++ thenInserted.events) = [] := by
  intro inserted thenRemoved removed thenInserted
  obtain ⟨hcount, hinserted, hcontents, hkept, hlog⟩ :=
    insertManyCount_of_fits hrange hitems hfits line
  obtain ⟨hresult, hremoved, hrest, hsame, hquiet⟩ :=
    removeManyCount_of_held hrange hbuffer hheld caller
  -- After an insert there are no fewer items, and after a remove no fewer free slots.
  have hstill : buffer.length ≤ inserted.ring.occupancy.toNat := by
    rw [← length_contents, hcontents, List.length_append, length_contents]
    omega
  have hroom : items.length ≤ removed.ring.freeSpace.toNat := by
    have hcapacity : removed.ring.capacity = ring.capacity :=
      (SharedCall.since_run (rfl : (SharedCall.removeManyCount buffer caller).steady = true)
        hrange).capacity
    rw [toNat_freeSpace hrange, ← length_contents_of_inRange hrange] at hfits
    rw [toNat_freeSpace hremoved, ← length_contents_of_inRange hremoved, hcapacity, hrest,
      List.length_drop]
    omega
  obtain ⟨hresultThen, -, -, hkeptThen, hquietThen⟩ :=
    removeManyCount_of_held hinserted hbuffer hstill caller
  obtain ⟨hcountThen, -, -, hsameThen, hlogThen⟩ :=
    insertManyCount_of_fits hremoved hitems hroom line
  have hlogs : logLines (inserted.events ++ thenRemoved.events) = [] := by
    rw [logLines_append, hlog, hquietThen, List.append_nil]
  have hothers : logLines (removed.events ++ thenInserted.events) = [] := by
    rw [logLines_append, hquiet, hlogThen, List.append_nil]
  have hbuffers : thenRemoved.result.2 = removed.result.2 := by
    rw [hresultThen, hresult, hcontents]
    rw [← length_contents] at hheld
    exact List.take_append_of_le_length hheld
  have hrings : thenRemoved.ring.peakless = thenInserted.ring.peakless := by
    let insertion : SharedCall α := .insertManyCount items line
    let removal : SharedCall α := .removeManyCount buffer caller
    have hfree : Unhindered (inserted.events ++ (thenRemoved.events ++ [])) := by
      rw [List.append_nil]
      exact unhindered_of_logLines hlogs
    have hother : Unhindered (removed.events ++ (thenInserted.events ++ [])) := by
      rw [List.append_nil]
      exact unhindered_of_logLines hothers
    have hsteady : ∀ call ∈ [insertion, removal], call.steady = true :=
      List.forall_mem_cons.mpr ⟨rfl, List.forall_mem_singleton.mpr rfl⟩
    have hturned : ∀ call ∈ [removal, insertion], call.steady = true :=
      List.forall_mem_cons.mpr ⟨rfl, List.forall_mem_singleton.mpr rfl⟩
    obtain ⟨-, hcore⟩ := SharedCall.runs_commute hrange hsteady hturned rfl rfl hfree hother
    exact peakless_eq_of_core hcore
      ((hkeptThen.trans hkept).trans (hsameThen.trans hsame).symm)
  exact ⟨hcount, hcountThen, congrArg Prod.fst hresultThen, congrArg Prod.fst hresult, hbuffers,
    hrings, hlogs, hothers⟩

/-- As long as an insert finds room and a remove finds items, it makes no difference which comes
first. A bulk insert of what fits and a bulk remove of what is there give the same counts, the
same buffer and the same ring but for its peak, in either order, and write no log. So do any two
runs that have the calls of the producer in the same order and those of the consumer in the same
order, however the two are interleaved, if no insert finds the ring full and no remove finds it
empty: the same items are handed out, and the ring is the same but for its peak, and for a record
of calls that failed for other reasons. -/
theorem sides_commute {ring : Ring α} (hrange : ring.inRange = true) :
    (∀ items buffer : List α, items ≠ [] → items.length ≤ ring.freeSpace.toNat → buffer ≠ [] →
      buffer.length ≤ ring.occupancy.toNat → ∀ line caller,
        let inserted := ring.insertManyCount items line
        let thenRemoved := inserted.ring.removeManyCount buffer caller
        let removed := ring.removeManyCount buffer caller
        let thenInserted := removed.ring.insertManyCount items line
        inserted.result = items.length ∧ thenInserted.result = items.length ∧
          thenRemoved.result.1 = buffer.length ∧ removed.result.1 = buffer.length ∧
          thenRemoved.result.2 = removed.result.2 ∧
          thenRemoved.ring.peakless = thenInserted.ring.peakless ∧
          logLines (inserted.events ++ thenRemoved.events) = [] ∧
          logLines (removed.events ++ thenInserted.events) = []) ∧
      ∀ calls others : List (SharedCall α), (∀ call ∈ calls, call.steady = true) →
        (∀ call ∈ others, call.steady = true) →
        calls.filter SharedCall.isInsertion = others.filter SharedCall.isInsertion →
        calls.filter SharedCall.isRemoval = others.filter SharedCall.isRemoval →
          let run := SharedCall.runAll calls ring
          let other := SharedCall.runAll others ring
          Unhindered run.events → Unhindered other.events →
            (SharedCall.transfersAll calls run.result).filterMap Transfer.delivered? =
                (SharedCall.transfersAll others other.result).filterMap Transfer.delivered? ∧
              run.ring.core = other.ring.core := by
  constructor
  · intro items buffer hitems hfits hbuffer hheld line caller
    exact bulk_calls_commute hrange hitems hfits hbuffer hheld line caller
  · intro calls others hcalls hothers hinsertions hremovals run other hfree hother
    exact SharedCall.runs_commute hrange hcalls hothers hinsertions hremovals hfree hother

theorem sides_commute_oneShort :
    let calls : List (SharedCall Nat) := [.insertMany [30] 1, .remove 2, .check 3]
    let others : List (SharedCall Nat) := [.remove 2, .insertMany [30] 1]
    let run := SharedCall.runAll calls oneShort
    let other := SharedCall.runAll others oneShort
    oneShort.inRange = true ∧ [30] ≠ [] ∧ [30].length ≤ oneShort.freeSpace.toNat ∧ [0] ≠ [] ∧
      [0].length ≤ oneShort.occupancy.toNat ∧
      ((oneShort.removeManyCount [0] 6).ring.insertManyCount [30] 5).result = 1 ∧
      ((oneShort.insertManyCount [30] 5).ring.removeManyCount [0] 6).result = (1, [10]) ∧
      (∀ call ∈ calls, call.steady = true) ∧ (∀ call ∈ others, call.steady = true) ∧
      calls.filter SharedCall.isInsertion = others.filter SharedCall.isInsertion ∧
      calls.filter SharedCall.isRemoval = others.filter SharedCall.isRemoval ∧
      Unhindered run.events ∧ Unhindered other.events ∧ run.ring.core = other.ring.core ∧
      run.ring.counters = ⟨2, 1, 1, 0, 0⟩ ∧ other.ring.counters = ⟨1, 1, 1, 0, 0⟩ := by
  intro calls others run other
  have hitems : [30] ≠ [] := by decide
  have hbuffer : [0] ≠ [] := by decide
  have hfits : [30].length ≤ oneShort.freeSpace.toNat := by decide
  have hheld : [0].length ≤ oneShort.occupancy.toNat := by decide
  have hcalls : ∀ call ∈ calls, call.steady = true := by decide
  have hothers : ∀ call ∈ others, call.steady = true := by decide
  have hfree : Unhindered run.events := by decide
  have hother : Unhindered other.events := by decide
  obtain ⟨hbulk, hruns⟩ := sides_commute (rfl : oneShort.inRange = true)
  obtain ⟨-, hcount, -⟩ := hbulk [30] [0] hitems hfits hbuffer hheld 5 6
  obtain ⟨-, hcore⟩ := hruns calls others hcalls hothers rfl rfl hfree hother
  exact ⟨rfl, hitems, hfits, hbuffer, hheld, hcount, rfl, hcalls, hothers, rfl, rfl, hfree, hother,
    hcore, rfl, rfl⟩

end Ring

end SpscRing
