import SpscRing.Proofs.Interleaving
/-!
# Rejected attempts

An attempt that fails moves nothing. When the ring was full, or empty, it counts the
rejection, and no later attempt can tell. So a wait in which nobody else gets a turn is
rejected again each time it tries.
-/

namespace SpscRing

def Counters.countRejected (fault : Fault) (times : Nat) (counters : Counters) : Counters :=
  match fault with
  | .full => { counters with overflows := counters.overflows + .ofNat times }
  | .empty => { counters with underflows := counters.underflows + .ofNat times }
  | _ => counters

def rejections {β : Type} (fault : Fault) (outcomes : List (Except Fault β)) : Nat :=
  outcomes.countP (failsWith fault)

namespace Ring

variable {α : Type}

def rejected (ring : Ring α) (fault : Fault) (times : Nat) : Ring α :=
  ring.count (.countRejected fault times)

theorem rejected_zero (ring : Ring α) (fault : Fault) : ring.rejected fault 0 = ring := by
  rcases ring with ⟨storage, producer, consumer, overwrite, pacing, latch, _ | counters⟩
  · rfl
  · have hsame : counters.countRejected fault 0 = counters := by
      cases fault <;> simp [Counters.countRejected]
    simp only [rejected, count, Recorder.record, hsame]

theorem rejected_rejected (ring : Ring α) (fault : Fault) (earlier later : Nat) :
    (ring.rejected fault earlier).rejected fault later = ring.rejected fault (earlier + later) := by
  rcases ring with ⟨storage, producer, consumer, overwrite, pacing, latch, _ | counters⟩
  · rfl
  · have hsum : (counters.countRejected fault earlier).countRejected fault later =
        counters.countRejected fault (earlier + later) := by
      cases fault <;> simp [Counters.countRejected, UInt64.add_assoc]
    simp only [rejected, count, Recorder.record, hsum]

theorem seen_rejected (ring : Ring α) (fault : Fault) (times : Nat) :
    (ring.rejected fault times).seen false = ring.seen false := rfl

end Ring

/-- If an attempt failed, it left the ring as it was, with a rejection counted when it failed
with the fault that a wait would have waited out. -/
def Outcome.Spares {α β : Type} (waitingOn : Fault) (ring : Ring α)
    (outcome : Outcome α (Except Fault β)) : Prop :=
  ∀ ⦃fault⦄, outcome.result = .error fault →
    outcome.ring = ring.rejected waitingOn (if fault = waitingOn then 1 else 0)

namespace Outcome.Spares

variable {α β : Type} {waitingOn fault : Fault} {ring : Ring α}

theorem of_ok {outcome : Outcome α (Except Fault β)} {result : β}
    (hmoves : outcome.result = .ok result) : outcome.Spares waitingOn ring := by
  intro fault hfails
  rw [hmoves] at hfails
  cases hfails

theorem of_other (hother : fault ≠ waitingOn) (events : List (Event α)) :
    (Outcome.fail ring fault events : Outcome α (Except Fault β)).Spares waitingOn ring := by
  intro cause hfails
  cases hfails
  rw [if_neg hother, Ring.rejected_zero]
  rfl

theorem fail_of {outcome : Outcome α (Except Fault β)} (hspares : outcome.Spares waitingOn ring)
    (hfails : outcome.result = .error fault) (events : List (Event α)) {γ : Type} :
    (Outcome.fail outcome.ring fault events : Outcome α (Except Fault γ)).Spares
      waitingOn ring := by
  intro cause hcause
  cases hcause
  exact hspares hfails

end Outcome.Spares

namespace Ring

variable {α : Type} {ring : Ring α} {fault : Fault}

/-! ## Single attempts -/

theorem ne_of_inert {waitingOn : Fault} (hslots : ring.storage.slots? = .error fault)
    (hwaits : waitingOn = .full ∨ waitingOn = .empty) : fault ≠ waitingOn := by
  obtain ⟨_, rfl⟩ | ⟨_, rfl⟩ := Storage.inert_of_slots? hslots
  · rcases hwaits with rfl | rfl <;> decide
  · rcases hwaits with rfl | rfl <;> decide

theorem spares_offer (ring : Ring α) (item : α) (overwrite : Bool) :
    (ring.offer item overwrite).Spares .full ring := by
  have hoffered := ring.offered item overwrite
  generalize ring.offer item overwrite = outcome at hoffered ⊢
  cases hoffered with
  | inert hslots => exact .of_other (ne_of_inert hslots (.inl rfl)) _
  | corrupted => exact .of_other (by decide) _
  | full =>
      intro fault hfails
      cases hfails
      rfl
  | replaced | accepted => exact .of_ok rfl

theorem spares_take (ring : Ring α) : ring.take.Spares .empty ring := by
  have htaken := ring.taken
  generalize ring.take = outcome at htaken ⊢
  cases htaken with
  | inert hslots => exact .of_other (ne_of_inert hslots (.inr rfl)) _
  | corrupted => exact .of_other (by decide) _
  | empty =>
      intro fault hfails
      cases hfails
      rfl
  | delivered => exact .of_ok rfl

theorem ring_integrity (ring : Ring α) : ring.integrity.ring = ring := by
  have hchecked := ring.checked
  generalize ring.integrity = outcome at hchecked ⊢
  cases hchecked with
  | inert | corrupted | sound => rfl

/-! ## Bulk attempts -/

/-- The ways in which a bulk attempt can end, by the attempt on its first item, if it has
one: as that attempt does when that fails, and well otherwise. -/
inductive BulkEnd {β γ : Type} (ring : Ring α) :
    Option (Outcome α (Except Fault β)) → Outcome α (Except Fault γ) → Prop where
  | inert {fault : Fault} {first? : Option (Outcome α (Except Fault β))}
      (hslots : ring.storage.slots? = .error fault) : BulkEnd ring first? (.fail ring fault [])
  /-- There was nothing to move. -/
  | void {slots : Slots α} (hslots : ring.storage = .lent slots) :
      BulkEnd ring none (.fail ring .noItems [])
  | rejected {fault : Fault} {first : Outcome α (Except Fault β)}
      (hfails : first.result = .error fault) :
      BulkEnd ring (some first) (.fail first.ring fault first.events)
  /-- Once the first item has moved, nothing fails any more. -/
  | moved {first : Outcome α (Except Fault β)} {outcome : Outcome α (Except Fault γ)} {result : β}
      {total : γ} (hmoves : first.result = .ok result) (hends : outcome.result = .ok total) :
      BulkEnd ring (some first) outcome

theorem bulkEnd_offerAll (ring : Ring α) (items : List α) :
    BulkEnd ring (items.head?.map fun item => ring.offer item ring.overwrite)
      (ring.offerAll items) := by
  rw [offerAll]
  cases hslots : ring.storage.slots? with
  | error fault => exact .inert hslots
  | ok slots =>
      cases items with
      | nil => exact .void (Storage.eq_lent_of_slots? hslots)
      | cons item later =>
          simp only [List.isEmpty_cons, Bool.false_eq_true, if_false, offerEach, List.head?_cons,
            Option.map_some]
          obtain ⟨fault | _, next, events⟩ := ring.offer item ring.overwrite
          · exact .rejected rfl
          · exact .moved rfl rfl

theorem bulkEnd_takeAll (ring : Ring α) (limit : Nat) :
    BulkEnd ring (if limit = 0 then none else some ring.take) (ring.takeAll limit) := by
  rw [takeAll]
  cases hslots : ring.storage.slots? with
  | error fault => exact .inert hslots
  | ok slots =>
      cases limit with
      | zero => exact .void (Storage.eq_lent_of_slots? hslots)
      | succ limit =>
          simp only [Nat.add_one_ne_zero, if_false, takeEach]
          obtain ⟨fault | item, next, events⟩ := ring.take
          · exact .rejected rfl
          · exact .moved rfl rfl

theorem BulkEnd.spares {β γ : Type} {waitingOn : Fault}
    {first? : Option (Outcome α (Except Fault β))} {outcome : Outcome α (Except Fault γ)}
    (hend : BulkEnd ring first? outcome) (hwaits : waitingOn = .full ∨ waitingOn = .empty)
    (hfirst : ∀ first ∈ first?, first.Spares waitingOn ring) : outcome.Spares waitingOn ring := by
  cases hend with
  | inert hslots => exact .of_other (ne_of_inert hslots hwaits) _
  | void =>
      have hother : Fault.noItems ≠ waitingOn := by
        rcases hwaits with rfl | rfl <;> decide
      exact .of_other hother _
  | rejected hfails => exact (hfirst _ rfl).fail_of hfails _
  | moved _ hends => exact .of_ok hends

theorem spares_offerAll (ring : Ring α) (items : List α) :
    (ring.offerAll items).Spares .full ring := by
  apply (ring.bulkEnd_offerAll items).spares (.inl rfl)
  intro first hfirst
  obtain ⟨item, _, rfl⟩ := Option.map_eq_some_iff.mp hfirst
  exact ring.spares_offer item ring.overwrite

theorem spares_takeAll (ring : Ring α) (limit : Nat) :
    (ring.takeAll limit).Spares .empty ring := by
  apply (ring.bulkEnd_takeAll limit).spares (.inr rfl)
  intro first hfirst
  obtain ⟨_, hfirst⟩ := Option.ite_none_left_eq_some.mp hfirst
  cases hfirst
  exact ring.spares_take

end Ring

/-! ## Waits in which nobody else gets a turn -/

/-- An attempt that can be made again and again: a failed one leaves a count at most, and no
attempt looks at that. -/
structure Repeatable {α β : Type} (attempt : Ring α → Outcome α (Except Fault β))
    (waitingOn : Fault) : Prop where
  spares : ∀ ring, (attempt ring).Spares waitingOn ring
  blind : Blind false Eq attempt

theorem Ring.repeatable_offer {α : Type} (item : α) (overwrite : Bool) :
    Repeatable (fun ring : Ring α => ring.offer item overwrite) .full where
  spares ring := ring.spares_offer item overwrite
  blind := .of_seen fun ring => ring.seen_offer false item overwrite

theorem Ring.repeatable_take {α : Type} : Repeatable (Ring.take (α := α)) .empty where
  spares := Ring.spares_take
  blind := .of_seen fun ring => ring.seen_take false

section

variable {α β : Type} {attempt : Ring α → Outcome α (Except Fault β)} {waitingOn fault : Fault}
  {ring final : Ring α} {verdict : Verdict β} {trace : List (Beat β (List (Answer α)))}
  {events : List (Event α)}

theorem rejections_cons (outcomes : List (Except Fault β)) :
    rejections waitingOn (.error fault :: outcomes) =
      (if fault = waitingOn then 1 else 0) + rejections waitingOn outcomes := by
  simp [rejections, List.countP_cons, failsWith, Nat.add_comm]

theorem rejections_again (outcomes : List (Except Fault β)) :
    rejections waitingOn (.error waitingOn :: outcomes) = 1 + rejections waitingOn outcomes := by
  rw [rejections_cons, if_pos rfl]

/-- Rejections change nothing that an attempt goes by, so that one is followed by another. -/
theorem Repeatable.rejected_again (hattempt : Repeatable attempt waitingOn)
    (hfails : (attempt ring).result = .error waitingOn)
    (times : Nat) :
    (attempt (ring.rejected waitingOn times)).result = .error waitingOn ∧
      (attempt (ring.rejected waitingOn times)).ring = ring.rejected waitingOn (times + 1) := by
  have hresult : (attempt (ring.rejected waitingOn times)).result = .error waitingOn :=
    (hattempt.blind (ring.seen_rejected waitingOn times)).result.trans hfails
  refine ⟨hresult, ?_⟩
  rw [hattempt.spares _ hresult, if_pos rfl, Ring.rejected_rejected]

/-- After a first rejection the rounds of a lone wait bring nothing but more of them, until
the deadline. -/
theorem Rounds.alone (hattempt : Repeatable attempt waitingOn)
    (hfails : (attempt ring).result = .error waitingOn)
    {times : Nat}
    (hrounds : Rounds attempt waitingOn [] (ring.rejected waitingOn times) verdict trace events
      final) :
    (verdict = .gaveUp ∨ verdict = .unsettled) ∧
      final = ring.rejected waitingOn
        (times + rejections waitingOn (trace.filterMap Beat.outcome?)) := by
  generalize hinterludes : ([] : List (Interlude α)) = interludes at hrounds
  generalize hstart : ring.rejected waitingOn times = start at hrounds
  -- By induction on the rounds: each begins with one more rejection counted.
  induction hrounds generalizing times with
  | unsettled => exact ⟨.inr rfl, hstart.symm⟩
  | gaveUp => exact ⟨.inl rfl, hstart.symm⟩
  | @settled _ _ _ _ peers tried hpeers htried hends =>
      subst hinterludes hstart
      have hrejected := hattempt.rejected_again hfails times
      rw [show ring.rejected waitingOn times = peers.ring from congrArg Outcome.ring hpeers,
        htried] at hrejected
      rw [hrejected.1, failsWith_iff.mpr rfl] at hends
      cases hends
  | @again _ _ _ reading length peers tried _ later _ hpeers htried hagain hlater ih =>
      subst hinterludes hstart
      have hrejected := hattempt.rejected_again hfails times
      rw [show ring.rejected waitingOn times = peers.ring from congrArg Outcome.ring hpeers,
        htried] at hrejected
      obtain ⟨hverdict, hfinal⟩ := ih rfl hrejected.2.symm
      have houtcomes : (roundBeats reading length peers.result tried.result ++ later).filterMap
          Beat.outcome? = .error waitingOn :: later.filterMap Beat.outcome? := by
        rw [hrejected.1]
        rfl
      refine ⟨hverdict, ?_⟩
      rw [hfinal, houtcomes, rejections_again, Nat.add_assoc]

theorem Repeatable.rejected_first (hattempt : Repeatable attempt waitingOn)
    (hfails : (attempt ring).result = .error waitingOn) :
    (attempt ring).ring = ring.rejected waitingOn 1 := by
  rw [hattempt.spares ring hfails, if_pos rfl]

/-- A lone wait that fails leaves its rejections counted, and nothing else. -/
theorem Waited.ring_of_error (hattempt : Repeatable attempt waitingOn)
    {pacing : Pacing} {timeout : Duration}
    (hwaited : Waited attempt waitingOn pacing timeout [] ring verdict trace events final)
    (hfailed : verdict.result? = some (.error fault)) :
    final = ring.rejected waitingOn (rejections waitingOn (trace.filterMap Beat.outcome?)) := by
  cases hwaited with
  | @atOnce tried htried hends =>
      have hfails : tried.result = .error fault := Option.some.inj hfailed
      subst htried
      rw [hattempt.spares ring hfails, hfails]
      exact congrArg (ring.rejected waitingOn) (rejections_cons []).symm
  | badPacing htried hfails hwaits hpacing =>
      subst htried
      have hfails := failsWith_iff.mp hfails
      rw [hattempt.rejected_first hfails, hfails]
      exact congrArg (ring.rejected waitingOn) (rejections_again []).symm
  | later htried hfails hwaits hpacing hrounds =>
      subst htried
      have hfails := failsWith_iff.mp hfails
      rw [hattempt.rejected_first hfails] at hrounds
      obtain ⟨_, hfinal⟩ := hrounds.alone hattempt hfails
      rw [hfinal, hfails]
      exact congrArg (ring.rejected waitingOn) (rejections_again _).symm

theorem Waited.atOnce_of {pacing : Pacing} {timeout : Duration} {interludes : List (Interlude α)}
    (hends : failsWith waitingOn (attempt ring).result = false ∨ timeout.isZero = true)
    (hwaited : Waited attempt waitingOn pacing timeout interludes ring verdict trace events
      final) :
    verdict = .settled (attempt ring).result ∧ trace = [.now, .attempt (attempt ring).result] := by
  cases hwaited with
  | atOnce htried =>
      rw [htried]
      exact ⟨rfl, rfl⟩
  | badPacing htried hfails hwaits | later htried hfails hwaits =>
      subst htried
      rw [hfails, hwaits] at hends
      rcases hends with hends | hends <;> cases hends

/-- A lone wait for what was missing at first runs to its deadline. -/
theorem Waited.gaveUp_alone (hattempt : Repeatable attempt waitingOn)
    {pacing : Pacing} (hvalid : pacing.Valid)
    {timeout : Duration} (hlong : timeout.isZero = false)
    (hfails : (attempt ring).result = .error waitingOn) (hended : verdict ≠ .unsettled)
    (hwaited : Waited attempt waitingOn pacing timeout [] ring verdict trace events final) :
    verdict = .gaveUp := by
  cases hwaited with
  | atOnce htried hends =>
      subst htried
      rw [hfails, failsWith_iff.mpr rfl, hlong] at hends
      rcases hends with hends | hends <;> cases hends
  | badPacing _ _ _ hpacing => exact absurd hvalid hpacing
  | later htried _ _ _ hrounds =>
      subst htried
      rw [hattempt.rejected_first hfails] at hrounds
      exact (hrounds.alone hattempt hfails).1.resolve_right hended

end

end SpscRing
