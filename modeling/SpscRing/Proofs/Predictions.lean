import SpscRing.Proofs.Inert
import SpscRing.Proofs.Singles
/-!
# What the queries say of the next transfer

The two queries tell beforehand how much a transfer will move, on a ring in any state: a ring that
cannot be used holds nothing and has no room, and any other moves what it has said. Queries and
attempts look at the indices each on their own, so this is shown for a single attempt first, and
goes through a bulk call by induction.
-/

namespace SpscRing

namespace Ring

variable {α β : Type}

/-- The queries have moved by the items that went in and those that came out. -/
structure Shifted (before after : Ring α) (into out : Nat) : Prop where
  occupancy : after.occupancy.toNat + out = before.occupancy.toNat + into
  freeSpace : after.freeSpace.toNat + into = before.freeSpace.toNat + out

variable {ring next : Ring α}

theorem Shifted.refl (ring : Ring α) : Shifted ring ring 0 0 := ⟨rfl, rfl⟩

theorem Shifted.trans {final : Ring α} {into out more less : Nat}
    (hfirst : Shifted ring next into out) (hsecond : Shifted next final more less) :
    Shifted ring final (into + more) (out + less) := by
  obtain ⟨hheld, hfree⟩ := hfirst
  obtain ⟨hlater, hroom⟩ := hsecond
  constructor <;> omega

theorem Shifted.tracked {outcome : Outcome α (Except Fault β)} {into out : Nat}
    (hshifted : Shifted ring outcome.ring into out) (operation : Operation) (line : UInt32) :
    Shifted ring (outcome.tracked operation line).ring into out := by
  obtain ⟨fault | result, final, events⟩ := outcome
  · exact ⟨hshifted.occupancy, hshifted.freeSpace⟩
  · exact hshifted

/-- Items held and places left make up all but one of the slots. -/
theorem occupancy_add_freeSpace (hrange : ring.inRange = true) :
    ring.occupancy.toNat + ring.freeSpace.toNat + 1 = ring.capacity.toNat := by
  obtain ⟨_, _, hspan⟩ := inRange_iff.mp hrange
  rw [UInt64.lt_iff_toNat_lt] at hspan
  rw [occupancy_of_inRange hrange, toNat_freeSpace hrange]
  omega

/-- In a ring in order it is enough to count the items held. -/
theorem Shifted.of_contents {into out : Nat} (hrange : ring.inRange = true)
    (hafter : next.inRange = true) (hcapacity : next.capacity = ring.capacity)
    (hcontents : next.contents.length + out = ring.contents.length + into) :
    Shifted ring next into out := by
  have hbefore := occupancy_add_freeSpace hrange
  have hthen := occupancy_add_freeSpace hafter
  rw [length_contents, length_contents] at hcontents
  rw [hcapacity] at hthen
  constructor <;> omega

/-! ## Rings that cannot be used -/

theorem dead_of_slots? {fault : Fault} (hslots : ring.storage.slots? = .error fault) :
    ring.Dead := by
  obtain ⟨hstorage, _⟩ | ⟨hstorage, _⟩ := Storage.inert_of_slots? hslots
  · exact .absent hstorage
  · exact .noCells hstorage

theorem toNat_freeSpace_of_dead (hdead : ring.Dead) : ring.freeSpace.toNat = 0 := by
  rw [freeSpace_of_dead hdead]
  rfl

theorem toNat_occupancy_of_dead (hdead : ring.Dead) : ring.occupancy.toNat = 0 := by
  rw [occupancy_of_dead hdead]
  rfl

/-! ## Attempts -/

/-- An attempt to insert that may drop nothing succeeds just when there is free space. -/
theorem offer_predicted (ring : Ring α) (item : α) :
    let outcome := ring.offer item false
    0 < ring.freeSpace.toNat ∧ outcome.result = .ok () ∧ Shifted ring outcome.ring 1 0 ∨
      ring.freeSpace.toNat = 0 ∧ (∃ fault, outcome.result = .error fault) ∧
        Shifted ring outcome.ring 0 0 := by
  have hend := ring.offered item false
  dsimp only
  generalize ring.offer item false = outcome at hend ⊢
  cases hend with
  | inert hslots =>
      exact .inr ⟨toNat_freeSpace_of_dead (dead_of_slots? hslots), ⟨_, rfl⟩, .refl ring⟩
  | corrupted _ hrange =>
      exact .inr ⟨toNat_freeSpace_of_dead (dead_iff.mpr hrange), ⟨_, rfl⟩, .refl ring⟩
  | full hslots hrange hfull =>
      have hcapacity := toNat_capacity_of_slots hslots
      have hnone : ring.freeSpace.toNat = 0 := by
        rw [toNat_freeSpace hrange]
        omega
      exact .inr ⟨hnone, ⟨_, rfl⟩, rfl, rfl⟩
  | replaced _ _ _ hmode => cases hmode
  | accepted hslots hrange hroom =>
      rw [← toNat_capacity_of_slots hslots] at hroom
      obtain ⟨hafter, hcontents⟩ := contents_accept hrange hroom item
      have hsome : 0 < ring.freeSpace.toNat := by
        rw [toNat_freeSpace hrange]
        omega
      refine .inl ⟨hsome, rfl, .of_contents hrange hafter (capacity_accept ring item) ?_⟩
      rw [hcontents, List.length_append]
      rfl

theorem take_predicted (ring : Ring α) :
    let outcome := ring.take
    0 < ring.occupancy.toNat ∧ (∃ item, outcome.result = .ok item) ∧
        Shifted ring outcome.ring 0 1 ∨
      ring.occupancy.toNat = 0 ∧ (∃ fault, outcome.result = .error fault) ∧
        Shifted ring outcome.ring 0 0 := by
  have hend := ring.taken
  dsimp only
  generalize ring.take = outcome at hend ⊢
  cases hend with
  | inert hslots =>
      exact .inr ⟨toNat_occupancy_of_dead (dead_of_slots? hslots), ⟨_, rfl⟩, .refl ring⟩
  | corrupted _ hrange =>
      exact .inr ⟨toNat_occupancy_of_dead (dead_iff.mpr hrange), ⟨_, rfl⟩, .refl ring⟩
  | empty _ hrange hnone =>
      rw [← occupancy_of_inRange hrange] at hnone
      exact .inr ⟨hnone, ⟨_, rfl⟩, rfl, rfl⟩
  | delivered _ hrange hsome =>
      obtain ⟨hafter, hcontents⟩ := contents_release hrange hsome
      have hlength := length_contents_of_inRange hrange
      have hheld : 0 < ring.occupancy.toNat := by rwa [occupancy_of_inRange hrange]
      refine .inl ⟨hheld, ⟨_, rfl⟩, .of_contents hrange hafter (capacity_release ring) ?_⟩
      show ring.release.contents.length + 1 = _
      rw [hcontents, List.length_tail]
      omega

theorem itemAt_predicted (ring : Ring α) (offset : UInt64) :
    (∃ item, ring.itemAt offset = .ok item) ↔ offset.toNat < ring.occupancy.toNat := by
  cases hrange : ring.inRange with
  | false =>
      have hdead : ring.Dead := dead_iff.mpr hrange
      rw [eq_error_of_dead hdead (ring.failure?_itemAt offset), occupancy_of_dead hdead]
      exact iff_of_false nofun (Nat.not_lt_zero _)
  | true =>
      rw [itemAt_of_inRange hrange, ← length_contents]
      by_cases hlt : offset.toNat < ring.contents.length
      · rw [List.getElem?_eq_getElem hlt]
        exact iff_of_true ⟨_, rfl⟩ hlt
      · rw [List.getElem?_eq_none (Nat.not_lt.mp hlt)]
        exact iff_of_false nofun hlt

/-! ## Bulk calls -/

theorem offerEach_predicted (items : List α) (ring : Ring α) :
    let outcome := offerEach false items ring
    outcome.result.1 = min items.length ring.freeSpace.toNat ∧
      Shifted ring outcome.ring outcome.result.1 0 := by
  induction items generalizing ring with
  | nil => exact ⟨(Nat.zero_min _).symm, .refl ring⟩
  | cons item later ih =>
      have hstep := ring.offer_predicted item
      rw [offerEach]
      generalize ring.offer item false = outcome at hstep
      obtain ⟨result, next, events⟩ := outcome
      dsimp only at hstep
      rcases hstep with ⟨hroom, hok, hshifted⟩ | ⟨hnone, ⟨fault, hfault⟩, hshifted⟩
      · subst hok
        -- The rest meets a ring with one place fewer.
        obtain ⟨hcount, hlater⟩ := ih next
        have hfree := hshifted.freeSpace
        have hboth := hshifted.trans hlater
        rw [Nat.add_comm] at hboth
        refine ⟨?_, hboth⟩
        show (offerEach false later next).result.1 + 1 = _
        rw [hcount, List.length_cons]
        omega
      · subst hfault
        rw [hnone, Nat.min_zero]
        exact ⟨rfl, hshifted⟩

theorem takeEach_predicted (limit : Nat) (ring : Ring α) :
    let outcome := takeEach limit ring
    outcome.result.1.length = min limit ring.occupancy.toNat ∧
      Shifted ring outcome.ring 0 outcome.result.1.length := by
  induction limit generalizing ring with
  | zero => exact ⟨(Nat.zero_min _).symm, .refl ring⟩
  | succ limit ih =>
      have hstep := ring.take_predicted
      rw [takeEach]
      generalize ring.take = outcome at hstep
      obtain ⟨result, next, events⟩ := outcome
      dsimp only at hstep
      rcases hstep with ⟨hsome, ⟨item, hok⟩, hshifted⟩ | ⟨hnone, ⟨fault, hfault⟩, hshifted⟩
      · subst hok
        obtain ⟨hcount, hlater⟩ := ih next
        have hheld := hshifted.occupancy
        have hboth := hshifted.trans hlater
        rw [Nat.add_comm 1] at hboth
        refine ⟨?_, hboth⟩
        show (takeEach limit next).result.1.length + 1 = _
        rw [hcount]
        omega
      · subst hfault
        rw [hnone, Nat.min_zero]
        exact ⟨rfl, hshifted⟩

theorem offerAll_predicted (hmode : ring.overwrite = false) (items : List α) :
    let outcome := ring.offerAll items
    countOf outcome.result = min items.length ring.freeSpace.toNat ∧
      Shifted ring outcome.ring (countOf outcome.result) 0 := by
  have heach := offerEach_predicted items ring
  unfold offerAll
  rw [hmode]
  cases hslots : ring.storage.slots? with
  | error fault =>
      rw [toNat_freeSpace_of_dead (dead_of_slots? hslots)]
      exact ⟨(Nat.min_zero _).symm, .refl ring⟩
  | ok slots =>
      cases items with
      | nil => exact ⟨(Nat.zero_min _).symm, .refl ring⟩
      | cons item later =>
          simp only [List.isEmpty_cons, Bool.false_eq_true, if_false]
          generalize offerEach false (item :: later) ring = outcome at heach ⊢
          obtain ⟨⟨_ | count, _ | fault⟩, next, events⟩ := outcome <;> exact heach

theorem takeAll_predicted (ring : Ring α) (limit : Nat) :
    let outcome := ring.takeAll limit
    let count := countOf (outcome.result.map List.length)
    count = min limit ring.occupancy.toNat ∧ Shifted ring outcome.ring 0 count := by
  have heach := takeEach_predicted limit ring
  unfold takeAll
  cases hslots : ring.storage.slots? with
  | error fault =>
      rw [toNat_occupancy_of_dead (dead_of_slots? hslots)]
      exact ⟨(Nat.min_zero _).symm, .refl ring⟩
  | ok slots =>
      cases limit with
      | zero => exact ⟨(Nat.zero_min _).symm, .refl ring⟩
      | succ limit =>
          simp only [Nat.add_one_ne_zero, if_false]
          generalize takeEach (limit + 1) ring = outcome at heach ⊢
          obtain ⟨⟨_ | ⟨item, items⟩, _ | fault⟩, next, events⟩ := outcome <;> exact heach

theorem removeManyCount_predicted (ring : Ring α) (buffer : List α) (line : UInt32) :
    let outcome := ring.removeManyCount buffer line
    outcome.result.1 = min buffer.length ring.occupancy.toNat ∧
      Shifted ring outcome.ring 0 outcome.result.1 := by
  obtain ⟨hcount, hshifted⟩ := ring.takeAll_predicted buffer.length
  have htracked := hshifted.tracked .removeMany line
  rw [removeManyCount, removeMany_eq_takeAll]
  generalize ring.takeAll buffer.length = outcome at hcount htracked
  obtain ⟨fault | items, next, events⟩ := outcome <;> exact ⟨hcount, htracked⟩

theorem insertManyCount_predicted (hmode : ring.overwrite = false) (items : List α)
    (line : UInt32) :
    let outcome := ring.insertManyCount items line
    outcome.result = min items.length ring.freeSpace.toNat ∧
      Shifted ring outcome.ring outcome.result 0 := by
  obtain ⟨hcount, hshifted⟩ := offerAll_predicted hmode items
  have htracked := hshifted.tracked .insertMany line
  unfold insertManyCount insertMany
  generalize ring.offerAll items = outcome at hcount htracked
  obtain ⟨fault | count, next, events⟩ := outcome <;> exact ⟨hcount, htracked⟩

/-! ## Checks -/

theorem check_eq_ok_iff (ring : Ring α) (line : UInt32) :
    (ring.check line).result = .ok () ↔ ring.inRange = true := by
  rw [check, Outcome.result_tracked]
  have hend := ring.checked
  generalize ring.integrity = outcome at hend ⊢
  cases hend with
  | inert hslots =>
      refine iff_of_false ?_ fun hrange => slots?_of_inRange hrange _ hslots
      intro hok
      cases hok
  | corrupted _ hrange =>
      refine iff_of_false ?_ (Bool.eq_false_iff.mp hrange)
      intro hok
      cases hok
  | sound hrange => exact iff_of_true rfl hrange

/-- The queries of a ring in any state predict its transfers. If it passes the check they add up
to all slots but one, and otherwise both are zero. As many items are removed at once as the buffer
has cells, or as are held if those are fewer, whatever the mode; and while nothing may be dropped,
as many are inserted as were given, or as fit if those are fewer. Peeking succeeds at the places of
the items held. The queries then move by just what was told, and by nothing for a peek. -/
theorem queries_predict_transfers (ring : Ring α) (line : UInt32) :
    let held := ring.occupancy.toNat
    let free := ring.freeSpace.toNat
    ((ring.check line).result = .ok () → held + free + 1 = ring.capacity.toNat) ∧
      ((ring.check line).result ≠ .ok () → held = 0 ∧ free = 0) ∧
      (∀ buffer,
        let removed := ring.removeManyCount buffer line
        removed.result.1 = min buffer.length held ∧
          Shifted ring removed.ring 0 removed.result.1) ∧
      (ring.overwrite = false → ∀ items,
        let inserted := ring.insertManyCount items line
        inserted.result = min items.length free ∧
          Shifted ring inserted.ring inserted.result 0) ∧
      ∀ offset,
        let peeked := ring.peek offset line
        ((∃ item, peeked.result = .ok item) ↔ offset.toNat < held) ∧
          Shifted ring peeked.ring 0 0 := by
  intro held free
  rw [ne_eq, check_eq_ok_iff]
  refine ⟨occupancy_add_freeSpace, fun hrange => ?unsound,
    fun buffer => ring.removeManyCount_predicted buffer line,
    fun hmode items => insertManyCount_predicted hmode items line, fun offset => ?peek⟩
  case unsound =>
    have hdead : ring.Dead := dead_iff.mpr (Bool.eq_false_iff.mpr hrange)
    exact ⟨toNat_occupancy_of_dead hdead, toNat_freeSpace_of_dead hdead⟩
  case peek =>
    have hquery : Shifted ring (Outcome.query ring (ring.itemAt offset)).ring 0 0 := .refl ring
    have hresult : (ring.peek offset line).result = ring.itemAt offset :=
      Outcome.result_tracked _ .peek line
    intro peeked
    rw [hresult]
    exact ⟨ring.itemAt_predicted offset, hquery.tracked .peek line⟩

theorem queries_predict_transfers_oneShort :
    (oneShort.check 4).result = .ok () ∧
      oneShort.occupancy.toNat + oneShort.freeSpace.toNat + 1 = 3 ∧
      (oneShort.removeManyCount [0, 0] 4).result.1 = 1 ∧
      oneShort.overwrite = false ∧ (oneShort.insertManyCount [30, 40] 4).result = 1 ∧
      Shifted oneShort (oneShort.insertManyCount [30, 40] 4).ring 1 0 ∧
      (∃ item, (oneShort.peek 0 4).result = .ok item) ∧
      (astray.check 4).result ≠ .ok () ∧ astray.occupancy.toNat = 0 ∧
      (astray.removeManyCount [0, 0] 4).result.1 = 0 := by
  have hstray : (astray.check 4).result ≠ .ok () := by
    rw [ne_eq, check_eq_ok_iff]
    decide
  obtain ⟨hsum, _, hremove, hinsert, hpeek⟩ := queries_predict_transfers oneShort 4
  obtain ⟨_, hnothing, hnone, _⟩ := queries_predict_transfers astray 4
  obtain ⟨hcount, hshifted⟩ := hinsert rfl [30, 40]
  exact ⟨rfl, hsum rfl, (hremove [0, 0]).1, rfl, hcount, hshifted, (hpeek 0).1.mpr (by decide),
    hstray, (hnothing hstray).1, (hnone [0, 0]).1⟩

end Ring

end SpscRing
