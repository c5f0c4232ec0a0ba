import SpscRing.Exact.Ring
import SpscRing.Proofs.Buffer
import SpscRing.Proofs.Queue
/-!
# Nothing overflows

In exact arithmetic every operation has a result in every state of the ring, whatever its
indices are, and it is the one that the ring computes with words that wrap around. The
guards in front of each expression are all that keeps it a word: a range checked before
a span is computed, slots there before a remainder is taken, an offset below the span
before it is added.
-/

namespace SpscRing.Exact

variable {α : Type}

theorem bind_eq {β γ : Type} {value : Option β} {result : β} (hvalue : value = some result)
    (later : β → Option γ) : value >>= later = later result := by
  rw [hvalue]
  rfl

/-! ## What a ring can be asked -/

theorem lap_capacity (ring : Ring α) : lap ring.capacity = some ring.lap := lap_eq ring.capacity

theorem trusted_eq (ring : Ring α) : trusted ring = some ring.inRange := by
  rw [trusted, bind_eq (lap_capacity ring)]
  exact inRange_eq _ _ _ _

theorem held_eq {ring : Ring α} (hrange : ring.inRange = true) : held ring = some ring.span := by
  obtain ⟨hproducer, hconsumer, _⟩ := Ring.inRange_iff.mp hrange
  rw [held, bind_eq (lap_capacity ring)]
  exact span_eq hproducer hconsumer

theorem occupancy_eq (ring : Ring α) : occupancy ring = some ring.occupancy := by
  rw [occupancy, bind_eq (trusted_eq ring), Ring.occupancy]
  split
  · rfl
  · cases hrange : ring.inRange with
    | false => rfl
    | true => exact held_eq hrange

theorem sub_one_eq (slots : Slots α) : sub slots.capacity 1 = some (slots.capacity - 1) := by
  apply sub_eq
  rw [slots.toNat_capacity, UInt64.toNat_one]
  exact slots.size_pos

theorem freeSpace_eq (ring : Ring α) : freeSpace ring = some ring.freeSpace := by
  rw [freeSpace, bind_eq (trusted_eq ring), Ring.freeSpace_eq_ite]
  cases hrange : ring.inRange with
  | false => split <;> rfl
  | true =>
      obtain ⟨slots, hslots⟩ := Ring.exists_slots_of_inRange hrange
      have hspan := Ring.span_lt_size hslots hrange
      have hcapacity : ring.capacity = slots.capacity := by
        rw [Ring.capacity, hslots]
        rfl
      have hlent : ring.lacksSlots ≠ true := by
        rw [Ring.lacksSlots_of_inRange hrange]
        exact Bool.false_ne_true
      rw [if_neg hlent, if_pos rfl, if_pos rfl, hcapacity, bind_eq (sub_one_eq slots),
        bind_eq (held_eq hrange)]
      apply sub_eq
      have hone : (1 : UInt64) ≤ slots.capacity := by
        rw [UInt64.le_iff_toNat_le, slots.toNat_capacity, UInt64.toNat_one]
        exact slots.size_pos
      rw [UInt64.toNat_sub_of_le _ _ hone, slots.toNat_capacity, UInt64.toNat_one]
      omega

/-! ## Single items -/

theorem evict_eq {ring : Ring α} (slots : Slots α) (hrange : ring.inRange = true) :
    evict ring slots = some (ring.evict slots) := by
  obtain ⟨_, hconsumer, _⟩ := Ring.inRange_iff.mp hrange
  rw [evict, bind_eq (lap_capacity ring), bind_eq (next_eq hconsumer), Ring.swapConsumer?_self,
    Ring.evict_eq]
  dsimp only
  rw [bind_eq (read_eq slots ring.consumer), bind_eq (slotOf_eq slots ring.consumer)]
  rfl

theorem accept_eq {ring : Ring α} {slots : Slots α} (hslots : ring.storage = .lent slots)
    (hproducer : ring.producer < ring.lap) (hconsumer : ring.consumer < ring.lap) (item : α) :
    accept ring slots item = some (ring.accept item) := by
  have hnext : Index.next ring.producer ring.lap < ring.lap := Index.next_lt hproducer
  rw [accept, bind_eq (lap_capacity ring), bind_eq (next_eq hproducer),
    bind_eq (write_eq slots ring.producer item), bind_eq (span_eq hnext hconsumer), Ring.accept,
    hslots]
  rfl

theorem offer_eq (ring : Ring α) (item : α) (overwrite : Bool) :
    offer ring item overwrite = some (ring.offer item overwrite) := by
  unfold offer Ring.offer
  cases hstorage : ring.storage with
  | absent | noCells => rfl
  | lent slots =>
      simp only [Storage.slots?]
      rw [bind_eq (trusted_eq ring)]
      cases hrange : ring.inRange with
      | false => rfl
      | true =>
          obtain ⟨hproducer, hconsumer, hspan⟩ := Ring.inRange_iff.mp hrange
          simp only [Bool.not_true, Bool.false_eq_true, if_false]
          rw [bind_eq (held_eq hrange), bind_eq (sub_one_eq slots)]
          split
          · split
            · rfl
            · -- The drop moves the consumer's index on, to a place on the lap.
              rw [bind_eq (evict_eq slots hrange), Ring.evict_eq_release]
              have hreleased : ring.release.consumer < ring.release.lap := by
                rw [Ring.consumer_release, Ring.lap_release]
                exact Index.next_lt hconsumer
              have hkept : ring.release.producer < ring.release.lap := by
                rw [Ring.producer_release, Ring.lap_release]
                exact hproducer
              have hslots : ring.release.storage = .lent slots := by
                rw [Ring.storage_release, hstorage]
              dsimp only
              rw [bind_eq (accept_eq hslots hkept hreleased item)]
              rfl
          · exact accept_eq hstorage hproducer hconsumer item

theorem release_eq {ring : Ring α} (hrange : ring.inRange = true) :
    release ring = some ring.release := by
  obtain ⟨_, hconsumer, _⟩ := Ring.inRange_iff.mp hrange
  rw [release, bind_eq (lap_capacity ring), bind_eq (next_eq hconsumer), Ring.swapConsumer?_self,
    Ring.release_eq]
  split
  · rfl
  · rfl

theorem take_eq (ring : Ring α) : take ring = some ring.take := by
  unfold take Ring.take
  cases hstorage : ring.storage with
  | absent | noCells => rfl
  | lent slots =>
      simp only [Storage.slots?]
      rw [bind_eq (trusted_eq ring)]
      cases hrange : ring.inRange with
      | false => rfl
      | true =>
          simp only [Bool.not_true, Bool.false_eq_true, if_false]
          split
          · rfl
          · rw [bind_eq (read_eq slots ring.consumer), bind_eq (release_eq hrange)]
            rfl

/-- Memory is small enough for the sum of a slot's number and an offset within it. -/
theorem slotOf_add_eq (slots : Slots α) (index : UInt64) {offset : UInt64}
    (hoffset : offset.toNat < slots.cells.size) :
    add (slots.slotOf index) offset = some (slots.slotOf index + offset) := by
  have hslot := slots.toNat_slotOf_lt index
  have hsize := slots.size_lt
  have hmax := Index.toNat_wordMax
  exact add_eq (by omega)

theorem itemAt_eq (ring : Ring α) (offset : UInt64) :
    itemAt ring offset = some (ring.itemAt offset) := by
  unfold itemAt Ring.itemAt
  cases hstorage : ring.storage with
  | absent | noCells => rfl
  | lent slots =>
      simp only [Storage.slots?]
      rw [bind_eq (trusted_eq ring)]
      cases hrange : ring.inRange with
      | false => rfl
      | true =>
          simp only [Bool.not_true, Bool.false_eq_true, if_false]
          rw [bind_eq (held_eq hrange)]
          split
          · rfl
          · next hin =>
            have hspan := Ring.span_lt_size hstorage hrange
            rw [UInt64.le_iff_toNat_le] at hin
            have hoffset : offset.toNat < slots.cells.size := by omega
            rw [bind_eq (slotOf_eq slots ring.consumer),
              bind_eq (slotOf_add_eq slots ring.consumer hoffset), bind_eq (read_eq slots _)]
            rfl

theorem integrity_eq (ring : Ring α) : integrity ring = some ring.integrity := by
  unfold integrity Ring.integrity
  cases hstorage : ring.storage with
  | absent | noCells => rfl
  | lent slots =>
      simp only [Storage.slots?]
      rw [bind_eq (trusted_eq ring)]
      split
      · rfl
      · rfl

/-! ## Many items -/

theorem count_offerEach_le (overwrite : Bool) (items : List α) (ring : Ring α) :
    (Ring.offerEach overwrite items ring).result.1 ≤ items.length := by
  induction items generalizing ring with
  | nil => exact Nat.le_refl 0
  | cons item later ih =>
      rw [Ring.offerEach]
      rcases ring.offer item overwrite with ⟨fault | _, next, events⟩
      · exact Nat.zero_le _
      · exact Nat.succ_le_succ (ih next)

theorem count_fillEach_le (buffer : List α) (ring : Ring α) :
    (Ring.fillEach buffer ring).1.result.1 ≤ buffer.length := by
  rw [Ring.fillEach_eq]
  exact Ring.length_takeEach_le buffer.length ring

theorem offerEach_eq (overwrite : Bool) {items : List α}
    (hfits : items.length ≤ Index.wordMax.toNat) (ring : Ring α) :
    offerEach overwrite items ring = some (Ring.offerEach overwrite items ring) := by
  induction items generalizing ring with
  | nil => rfl
  | cons item later ih =>
      rw [List.length_cons] at hfits
      rw [offerEach, bind_eq (offer_eq ring item overwrite), Ring.offerEach]
      rcases ring.offer item overwrite with ⟨fault | _, next, events⟩
      · rfl
      · have hlater := ih (by omega) next
        have hcount := count_offerEach_le overwrite later next
        have hmore : succ (Ring.offerEach overwrite later next).result.1 = some _ :=
          if_pos (by omega)
        dsimp only
        rw [bind_eq hlater, bind_eq hmore]
        rfl

theorem fillEach_eq {buffer : List α} (hfits : buffer.length ≤ Index.wordMax.toNat)
    (ring : Ring α) : fillEach buffer ring = some (Ring.fillEach buffer ring) := by
  induction buffer generalizing ring with
  | nil => rfl
  | cons cell later ih =>
      rw [List.length_cons] at hfits
      rw [fillEach, bind_eq (take_eq ring), Ring.fillEach]
      rcases ring.take with ⟨fault | item, next, events⟩
      · rfl
      · have hlater := ih (by omega) next
        have hcount := count_fillEach_le later next
        have hmore : succ (Ring.fillEach later next).1.result.1 = some _ :=
          if_pos (by omega)
        dsimp only
        rw [bind_eq hlater, bind_eq hmore]
        rfl

theorem offerAll_eq (ring : Ring α) {items : List α}
    (hfits : items.length ≤ Index.wordMax.toNat) :
    offerAll ring items = some (ring.offerAll items) := by
  unfold offerAll Ring.offerAll
  cases ring.storage.slots? with
  | error fault => rfl
  | ok slots =>
      dsimp only
      split
      · rfl
      · rw [bind_eq (offerEach_eq ring.overwrite hfits ring)]
        rfl

theorem fillAll_eq (ring : Ring α) {buffer : List α}
    (hfits : buffer.length ≤ Index.wordMax.toNat) :
    fillAll ring buffer = some (ring.fillAll buffer) := by
  unfold fillAll Ring.fillAll
  cases ring.storage.slots? with
  | error fault => rfl
  | ok slots =>
      dsimp only
      split
      · rfl
      · rw [bind_eq (fillEach_eq hfits ring)]
        rfl

/-! ## Waits -/

section

variable {β ρ σ ι : Type} (clock : Clock σ ι ρ) (pacing : Pacing) (timeout : Duration)
  (retryOn : Fault) {attempt : σ → Option (Except Fault β × σ)}
  {plain : σ → Except Fault β × σ}

/-- What is left of a timeout is asked for only while there is something left. -/
theorem retry_eq (hattempt : ∀ world, attempt world = some (plain world)) (start : ι)
    (rounds : Nat) (delay : Duration) (world : σ) :
    retry clock pacing timeout retryOn attempt start rounds delay world =
      some (Wait.retry clock pacing timeout retryOn plain start rounds delay world) := by
  induction rounds generalizing delay world with
  | zero => rfl
  | succ rounds ih =>
      rw [retry, Wait.retry]
      rcases clock.elapsed start world with ⟨reading, next⟩
      dsimp only
      split
      · rfl
      · next hearly =>
        have hleft : timeLeft timeout reading = some (timeout - reading) := by
          rw [Duration.le_def] at hearly
          apply if_pos
          rw [Duration.le_def]
          omega
        rw [bind_eq hleft, bind_eq (hattempt _)]
        split
        · rw [bind_eq (ih _ _)]
          rfl
        · rfl

theorem wait_eq (hattempt : ∀ world, attempt world = some (plain world)) (rounds : Nat)
    (world : σ) :
    wait clock pacing timeout retryOn attempt rounds world =
      some (Wait.run clock pacing timeout retryOn plain rounds world) := by
  rw [wait, Wait.run]
  rcases clock.now world with ⟨start, next⟩
  dsimp only
  rw [bind_eq (hattempt next)]
  rcases plain next with ⟨outcome, next⟩
  dsimp only
  split
  · cases pacing.validate with
    | error fault => rfl
    | ok valid =>
        dsimp only
        rw [bind_eq (retry_eq clock pacing timeout retryOn hattempt start rounds pacing.interval
          next)]
        rfl
  · rfl

theorem perform_eq {κ β : Type} {action : Ring α → Option (Outcome α β)}
    {plain : Ring α → Outcome α β} (haction : ∀ ring, action ring = some (plain ring))
    (waiting : Waiting α κ) : perform action waiting = some (waiting.perform plain) := by
  rcases waiting with ⟨ring, history, clock⟩
  rw [perform, bind_eq (haction ring)]
  rfl

end

/-! ## Calls -/

/-- Whatever memory a ring was lent and whatever words stand in its indices, every
operation goes through in exact arithmetic and gives what it gives in words: no sum and
no difference leaves the words, nothing is divided by zero, every slot read or written is
one of the slots there are, and no wait computes a negative rest. Bulk calls count what they
move in a word, so their lists are no longer than a word can tell. -/
theorem exact_everywhere {κ ι ρ : Type} (ring : Ring α) (line : UInt32)
    (clock : Clock (Waiting α κ) ι ρ) (timeout : Duration) (rounds : Nat) (start : κ) :
    occupancy ring = some ring.occupancy ∧
      freeSpace ring = some ring.freeSpace ∧
      check ring line = some (ring.check line) ∧
      (∀ item, insert ring line item = some (ring.insert item line)) ∧
      remove ring line = some (ring.remove line) ∧
      (∀ offset, peek ring line offset = some (ring.peek offset line)) ∧
      (∀ items : List α, items.length ≤ Index.wordMax.toNat →
        insertMany ring line items = some (ring.insertMany items line)) ∧
      (∀ buffer : List α, buffer.length ≤ Index.wordMax.toNat →
        removeMany ring line buffer = some (ring.removeMany buffer line)) ∧
      (∀ item, insertWithin ring line item timeout clock rounds start =
        some (ring.insertWithin item timeout clock rounds start line)) ∧
      removeWithin ring line timeout clock rounds start =
        some (ring.removeWithin timeout clock rounds start line) := by
  refine ⟨occupancy_eq ring, freeSpace_eq ring, ?_, ?_, ?_, ?_, ?_, ?_, ?_, ?_⟩
  · exact bind_eq (integrity_eq ring) _
  · intro item
    exact bind_eq (offer_eq ring item ring.overwrite) _
  · exact bind_eq (take_eq ring) _
  · intro offset
    exact bind_eq (itemAt_eq ring offset) _
  · intro items hfits
    exact bind_eq (offerAll_eq ring hfits) _
  · intro buffer hfits
    exact bind_eq (fillAll_eq ring hfits) _
  · intro item
    have hattempt := perform_eq (κ := κ) fun other : Ring α => offer_eq other item ring.overwrite
    exact bind_eq (wait_eq clock ring.pacing timeout .full hattempt rounds _) _
  · have hattempt := perform_eq (κ := κ) (take_eq (α := α))
    exact bind_eq (wait_eq clock ring.pacing timeout .empty hattempt rounds _) _

theorem exact_everywhere_astride :
    [30].length ≤ Index.wordMax.toNat ∧ [0, 0, 0].length ≤ Index.wordMax.toNat ∧
      insertMany Session.astride.ring 4 [30] = some (Session.astride.ring.insertMany [30] 4) ∧
      removeMany Session.astride.ring 4 [0, 0, 0] =
        some (Session.astride.ring.removeMany [0, 0, 0] 4) ∧
      (Session.astride.ring.insertMany [30] 4).result = .error .full ∧
      (Session.astride.ring.removeMany [0, 0, 0] 4).result = (.ok 2, [10, 20, 0]) := by
  obtain ⟨_, _, _, _, _, _, hinsertMany, hremoveMany, _⟩ :=
    exact_everywhere Session.astride.ring 4 (Surroundings.clockwork VirtualClock.timepiece)
      (.ofMillis 2) 5 ⟨.exact .zero, []⟩
  have hitems : [30].length ≤ Index.wordMax.toNat := by decide
  have hbuffer : [0, 0, 0].length ≤ Index.wordMax.toNat := by decide
  exact ⟨hitems, hbuffer, hinsertMany [30] hitems, hremoveMany [0, 0, 0] hbuffer, rfl, rfl⟩

end SpscRing.Exact
