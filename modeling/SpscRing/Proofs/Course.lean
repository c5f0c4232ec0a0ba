import SpscRing.Proofs.Attempt
import SpscRing.Proofs.Buffer
/-!
# Courses of changes

Whatever is done to a ring is a course of single changes: attempts, records of
failures, and control. The changes are listed here, and every operation is shown to be
a course of them, so that what each change keeps is kept by every operation and at
every moment of it.
-/

namespace SpscRing

namespace Ring

/-- One thing that calls on a shared ring do to it, with the events it causes. Stray
writes to the indices are left out unless they are allowed. -/
inductive Move {α : Type} (stray : Bool) : Ring α → List (Event α) → Ring α → Prop where
  | offer (ring : Ring α) (item : α) :
      Move stray ring (ring.offer item ring.overwrite).events
        (ring.offer item ring.overwrite).ring
  | take (ring : Ring α) : Move stray ring ring.take.events ring.take.ring
  | check (ring : Ring α) : Move stray ring ring.integrity.events ring.integrity.ring
  | fail (ring : Ring α) (operation : Operation) (fault : Fault) (line : UInt32) :
      Move stray ring [.failed operation fault line]
        { ring with latch := .ofFailure operation fault line }
  | giveUp (ring : Ring α) (timeout : Duration) (waitingOn : Fault) :
      Move stray ring [.timedOut timeout waitingOn] ring
  | force (hstray : stray = true) (ring : Ring α) (producer consumer : Option UInt64) :
      Move stray ring (ring.forceIndices producer consumer).events
        (ring.forceIndices producer consumer).ring

/-- One thing that calls do to a ring. Setting it up afresh is left out with the stray
writes. -/
inductive Change {α : Type} (stray : Bool) : Ring α → List (Event α) → Ring α → Prop where
  | move {ring next : Ring α} {events : List (Event α)} (hmove : Move stray ring events next) :
      Change stray ring events next
  | setUp (hstray : stray = true) (ring : Ring α) (storage : Storage α) (line : UInt32) :
      Change stray ring (ring.setUp storage line).events (ring.setUp storage line).ring
  | setPacing (ring : Ring α) (pacing : Pacing) (line : UInt32) :
      Change stray ring (ring.setPacing pacing line).events (ring.setPacing pacing line).ring
  | setOverwrite (ring : Ring α) (enabled : Bool) :
      Change stray ring (ring.setOverwrite enabled).events (ring.setOverwrite enabled).ring
  | resetCounters (ring : Ring α) :
      Change stray ring ring.resetCounters.events ring.resetCounters.ring
  | clearFailure (ring : Ring α) :
      Change stray ring ring.clearFailure.events ring.clearFailure.ring

/-- Rings that follow one another by single changes, with all events on the way. -/
inductive Course {α : Type} (change : Ring α → List (Event α) → Ring α → Prop)
    (start : Ring α) : List (Event α) → Ring α → Prop where
  | rest : Course change start [] start
  | step {events later : List (Event α)} {ring next : Ring α}
      (hcourse : Course change start events ring) (hchange : change ring later next) :
      Course change start (events ++ later) next

namespace Course

variable {α : Type} {change other : Ring α → List (Event α) → Ring α → Prop}

theorem single {ring next : Ring α} {events : List (Event α)}
    (hchange : change ring events next) : Course change ring events next :=
  .step .rest hchange

theorem trans {start middle final : Ring α} {events later : List (Event α)}
    (hfirst : Course change start events middle) (hsecond : Course change middle later final) :
    Course change start (events ++ later) final := by
  induction hsecond with
  | rest => rwa [List.append_nil]
  | step _ hchange ih =>
      rw [← List.append_assoc]
      exact ih.step hchange

theorem mono {start final : Ring α} {events : List (Event α)}
    (hcourse : Course change start events final)
    (hle : ∀ ring events next, change ring events next → other ring events next) :
    Course other start events final := by
  induction hcourse with
  | rest => exact .rest
  | step _ hchange ih => exact ih.step (hle _ _ _ hchange)

end Course

section

variable {α : Type} {stray : Bool} {ring next : Ring α} {events : List (Event α)}

theorem Move.loosen (hmove : Move false ring events next) : Move stray ring events next := by
  cases hmove with
  | offer _ item => exact .offer ring item
  | take => exact .take ring
  | check => exact .check ring
  | fail _ operation fault line => exact .fail ring operation fault line
  | giveUp _ timeout waitingOn => exact .giveUp _ timeout waitingOn
  | force hstray => cases hstray

theorem Change.loosen (hchange : Change false ring events next) :
    Change stray ring events next := by
  cases hchange with
  | move hmove => exact .move hmove.loosen
  | setUp hstray => cases hstray
  | setPacing _ pacing line => exact .setPacing ring pacing line
  | setOverwrite _ enabled => exact .setOverwrite ring enabled
  | resetCounters => exact .resetCounters ring
  | clearFailure => exact .clearFailure ring

end

end Ring

def Outcome.Moves {α β : Type} (stray : Bool) (ring : Ring α) (outcome : Outcome α β) : Prop :=
  Ring.Course (Ring.Move stray) ring outcome.events outcome.ring

namespace Outcome.Moves

open SpscRing.Ring

variable {α β γ δ : Type} {stray : Bool} {ring : Ring α}

theorem query (result : β) : (Outcome.query ring result).Moves stray ring := Course.rest

theorem map {outcome : Outcome α β} (hmoves : outcome.Moves stray ring) (f : β → γ) :
    (outcome.map f).Moves stray ring := hmoves

theorem after {middle : Ring α} {events : List (Event α)} {outcome : Outcome α β}
    (hfirst : Course (Move stray) ring events middle) (hmoves : outcome.Moves stray middle) :
    (outcome.after events).Moves stray ring :=
  hfirst.trans hmoves

theorem tracked {outcome : Outcome α (Except Fault β)} (hmoves : outcome.Moves stray ring)
    (operation : Operation) (line : UInt32) :
    (outcome.tracked operation line).Moves stray ring := by
  rcases outcome with ⟨fault | result, reached, events⟩
  · exact hmoves.step (.fail reached operation fault line)
  · exact hmoves

/-! ## Attempts -/

theorem offer (item : α) : (ring.offer item ring.overwrite).Moves stray ring :=
  Course.single (.offer ring item)

theorem take : ring.take.Moves stray ring := Course.single (.take ring)

theorem integrity : ring.integrity.Moves stray ring := Course.single (.check ring)

end Outcome.Moves

namespace Ring

/-! ## What moves leave alone -/

/-- What calls go by and only control changes: the mode and the pacing. -/
def settings {α : Type} (ring : Ring α) : Bool × Pacing := (ring.overwrite, ring.pacing)

theorem settings_release {α : Type} (ring : Ring α) : ring.release.settings = ring.settings :=
  Prod.ext (overwrite_release ring) (pacing_release ring)

theorem settings_offer {α : Type} (ring : Ring α) (item : α) (overwrite : Bool) :
    (ring.offer item overwrite).ring.settings = ring.settings := by
  have hend := offered ring item overwrite
  generalize ring.offer item overwrite = outcome at hend ⊢
  cases hend with
  | inert | corrupted | full | accepted => rfl
  | replaced => exact settings_release ring

theorem settings_take {α : Type} (ring : Ring α) : ring.take.ring.settings = ring.settings := by
  have hend := taken ring
  generalize ring.take = outcome at hend ⊢
  cases hend with
  | inert | corrupted | empty => rfl
  | delivered => exact settings_release ring

theorem overwrite_offer {α : Type} (ring : Ring α) (item : α) (overwrite : Bool) :
    (ring.offer item overwrite).ring.overwrite = ring.overwrite :=
  congrArg Prod.fst (settings_offer ring item overwrite)

theorem overwrite_take {α : Type} (ring : Ring α) :
    ring.take.ring.overwrite = ring.overwrite :=
  congrArg Prod.fst (settings_take ring)

theorem pacing_offer {α : Type} (ring : Ring α) (item : α) (overwrite : Bool) :
    (ring.offer item overwrite).ring.pacing = ring.pacing :=
  congrArg Prod.snd (settings_offer ring item overwrite)

theorem pacing_take {α : Type} (ring : Ring α) : ring.take.ring.pacing = ring.pacing :=
  congrArg Prod.snd (settings_take ring)

theorem Move.settings_eq {α : Type} {stray : Bool} {ring next : Ring α}
    {events : List (Event α)} (hmove : Move stray ring events next) :
    next.settings = ring.settings := by
  cases hmove with
  | offer => exact settings_offer ring _ ring.overwrite
  | take => exact settings_take ring
  | check =>
      have hend := checked ring
      generalize ring.integrity = outcome at hend ⊢
      cases hend with
      | inert | corrupted | sound => rfl
  | fail | giveUp | force => rfl

theorem Course.settings_eq {α : Type} {stray : Bool} {ring next : Ring α}
    {events : List (Event α)} (hcourse : Course (Move stray) ring events next) :
    next.settings = ring.settings := by
  induction hcourse with
  | rest => rfl
  | step _ hmove ih => exact hmove.settings_eq.trans ih

theorem Move.overwrite_eq {α : Type} {stray : Bool} {ring next : Ring α}
    {events : List (Event α)} (hmove : Move stray ring events next) :
    next.overwrite = ring.overwrite :=
  congrArg Prod.fst hmove.settings_eq

theorem Course.overwrite_eq {α : Type} {stray : Bool} {ring next : Ring α}
    {events : List (Event α)} (hcourse : Course (Move stray) ring events next) :
    next.overwrite = ring.overwrite :=
  congrArg Prod.fst hcourse.settings_eq

theorem Move.pacing_eq {α : Type} {stray : Bool} {ring next : Ring α}
    {events : List (Event α)} (hmove : Move stray ring events next) :
    next.pacing = ring.pacing :=
  congrArg Prod.snd hmove.settings_eq

theorem Course.pacing_eq {α : Type} {stray : Bool} {ring next : Ring α}
    {events : List (Event α)} (hcourse : Course (Move stray) ring events next) :
    next.pacing = ring.pacing :=
  congrArg Prod.snd hcourse.settings_eq

end Ring

def Event.isControl {α : Type} : Event α → Bool
  | bound _ | boundToNothing | boundToNoCells => true
  | failureCleared | countersReset | overwriteSet _ | pacingSet _ => true
  | _ => false

namespace Ring

theorem Move.isControl_eq {α : Type} {stray : Bool} {ring next : Ring α}
    {events : List (Event α)} (hmove : Move stray ring events next) :
    ∀ event ∈ events, event.isControl = false := by
  cases hmove with
  | offer _ item =>
      have hend := offered ring item ring.overwrite
      generalize ring.offer item ring.overwrite = outcome at hend ⊢
      cases hend with
      | inert => exact List.forall_mem_nil _
      | corrupted | full | accepted => exact List.forall_mem_singleton.mpr rfl
      | replaced => exact List.forall_mem_cons.mpr ⟨rfl, List.forall_mem_singleton.mpr rfl⟩
  | take =>
      have hend := taken ring
      generalize ring.take = outcome at hend ⊢
      cases hend with
      | inert => exact List.forall_mem_nil _
      | corrupted | empty | delivered => exact List.forall_mem_singleton.mpr rfl
  | check =>
      have hend := checked ring
      generalize ring.integrity = outcome at hend ⊢
      cases hend with
      | inert | sound => exact List.forall_mem_nil _
      | corrupted => exact List.forall_mem_singleton.mpr rfl
  | fail | giveUp | force => exact List.forall_mem_singleton.mpr rfl

theorem Course.isControl_eq {α : Type} {stray : Bool} {ring next : Ring α}
    {events : List (Event α)} (hcourse : Course (Move stray) ring events next) :
    ∀ event ∈ events, event.isControl = false := by
  induction hcourse with
  | rest => exact List.forall_mem_nil _
  | step _ hmove ih =>
      intro event hevent
      exact (List.mem_append.mp hevent).elim (ih event) (hmove.isControl_eq event)

/-! ## Bulk calls -/

variable {α : Type} {stray : Bool}

theorem moves_offerEach (items : List α) (ring : Ring α) :
    (offerEach ring.overwrite items ring).Moves stray ring := by
  induction items generalizing ring with
  | nil => exact Course.rest
  | cons item later ih =>
      have hoffer : (ring.offer item ring.overwrite).Moves stray ring := .offer item
      have hmode := overwrite_offer ring item ring.overwrite
      rw [offerEach]
      generalize ring.offer item ring.overwrite = outcome at hoffer hmode
      rcases outcome with ⟨fault | _, next, events⟩
      · exact hoffer
      · have hlater := ih next
        rw [show next.overwrite = ring.overwrite from hmode] at hlater
        exact .after hoffer (hlater.map _)

theorem moves_takeEach (limit : Nat) (ring : Ring α) :
    (takeEach limit ring).Moves stray ring := by
  induction limit generalizing ring with
  | zero => exact Course.rest
  | succ limit ih =>
      have htake : ring.take.Moves stray ring := .take
      rw [takeEach]
      generalize ring.take = outcome at htake
      rcases outcome with ⟨fault | item, next, events⟩
      · exact htake
      · exact .after htake ((ih next).map _)

theorem moves_offerAll (ring : Ring α) (items : List α) :
    (ring.offerAll items).Moves stray ring := by
  unfold offerAll
  split
  · exact Course.rest
  · split
    · exact Course.rest
    · exact (moves_offerEach items ring).map _

theorem moves_takeAll (ring : Ring α) (limit : Nat) : (ring.takeAll limit).Moves stray ring := by
  unfold takeAll
  split
  · exact Course.rest
  · split
    · exact Course.rest
    · exact (moves_takeEach limit ring).map _

theorem moves_removeMany (ring : Ring α) (buffer : List α) (line : UInt32) :
    (ring.removeMany buffer line).Moves stray ring := by
  rw [removeMany_eq_takeAll]
  exact ((moves_takeAll ring buffer.length).tracked .removeMany line).map _

end Ring

end SpscRing
