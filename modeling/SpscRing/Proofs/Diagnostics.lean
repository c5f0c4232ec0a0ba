import SpscRing.Proofs.Disguise
import SpscRing.Proofs.Parallel
/-!
# What diagnostics are blind to

No call looks at the record of the last failure, or at the counters, before it acts.
Two rings that differ in no more than these are told apart only by asking for them.
-/

namespace SpscRing

/-! ## Masks -/

/-- What stands for the diagnostics of a ring where they are not to be seen. Counting goes on
behind a mask. -/
structure Mask where
  latch : FaultLatch → FaultLatch
  recorder : Recorder → Recorder
  record_recorder : ∀ (change : Counters → Counters) (kept : Recorder),
    (recorder kept).record change = recorder (kept.record change)

def Ring.masked {α : Type} (mask : Mask) (ring : Ring α) : Ring α :=
  { ring with latch := mask.latch ring.latch, recorder := mask.recorder ring.recorder }

def Outcome.masked {α β : Type} (mask : Mask) (outcome : Outcome α β) : Outcome α β :=
  { outcome with ring := outcome.ring.masked mask }

def Mask.disguise (mask : Mask) : Disguise where
  overwrite := id
  latch := mask.latch
  recorder := mask.recorder
  record_recorder kept _ := mask.record_recorder _ kept

namespace Ring

variable {α : Type} (mask : Mask) (ring : Ring α)

theorem masked_offer (item : α) (overwrite : Bool) :
    (ring.masked mask).offer item overwrite = (ring.offer item overwrite).masked mask :=
  ring.disguised_offer mask.disguise item overwrite

theorem masked_take : (ring.masked mask).take = ring.take.masked mask :=
  ring.disguised_take mask.disguise

theorem masked_integrity : (ring.masked mask).integrity = ring.integrity.masked mask :=
  ring.disguised_integrity mask.disguise

end Ring

/-! ## Nothing to be seen -/

/-- A ring with its record of failures taken away, and its counters unless they are to
be seen. -/
def Ring.seen {α : Type} (counters : Bool) (ring : Ring α) : Ring α :=
  { ring with latch := .clear, recorder := if counters then ring.recorder else .off }

def Outcome.seen {α β : Type} (counters : Bool) (outcome : Outcome α β) : Outcome α β :=
  { outcome with ring := outcome.ring.seen counters }

def Mask.seen (counters : Bool) : Mask where
  latch _ := .clear
  recorder kept := if counters then kept else .off
  record_recorder _ _ := by cases counters <;> rfl

namespace Ring

variable {α : Type} (counters : Bool) (ring : Ring α)

theorem seen_offer (item : α) (overwrite : Bool) :
    (ring.seen counters).offer item overwrite = (ring.offer item overwrite).seen counters :=
  ring.masked_offer (.seen counters) item overwrite

theorem seen_take : (ring.seen counters).take = ring.take.seen counters :=
  ring.masked_take (.seen counters)

theorem seen_integrity : (ring.seen counters).integrity = ring.integrity.seen counters :=
  ring.masked_integrity (.seen counters)

variable {counters} {first second : Ring α}

theorem storage_eq_of_seen (hsame : first.seen counters = second.seen counters) :
    first.storage = second.storage := by
  show (first.seen counters).storage = (second.seen counters).storage
  rw [hsame]

theorem pacing_eq_of_seen (hsame : first.seen counters = second.seen counters) :
    first.pacing = second.pacing := by
  show (first.seen counters).pacing = (second.seen counters).pacing
  rw [hsame]

theorem overwrite_eq_of_seen (hsame : first.seen counters = second.seen counters) :
    first.overwrite = second.overwrite := by
  show (first.seen counters).overwrite = (second.seen counters).overwrite
  rw [hsame]

end Ring

/-! ## Two runs side by side -/

/-- Two answers that differ at most in reports of the last failure, and in counters unless
they are to be seen, in what peers were told as well. -/
inductive Answer.Agree {α : Type} (counters : Bool) : Answer α → Answer α → Prop where
  | same (answer : Answer α) : Agree counters answer answer
  | report (first second : Report) : Agree counters (.report first) (.report second)
  | counters (hhidden : counters = false) (first second : Counters) :
      Agree counters (.counters first) (.counters second)
  | waitedInsert (verdict : Verdict Unit) {first second : List (Beat Unit (List (Answer α)))}
      (htraces : List.Forall₂ (Beat.Agree (List.Forall₂ (Agree counters))) first second) :
      Agree counters (.waitedInsert verdict first) (.waitedInsert verdict second)
  | waitedRemove (verdict : Verdict α) {first second : List (Beat α (List (Answer α)))}
      (htraces : List.Forall₂ (Beat.Agree (List.Forall₂ (Agree counters))) first second) :
      Agree counters (.waitedRemove verdict first) (.waitedRemove verdict second)

structure Outcome.Agree {α β : Type} (counters : Bool) (related : β → β → Prop)
    (first second : Outcome α β) : Prop where
  result : related first.result second.result
  ring : first.ring.seen counters = second.ring.seen counters
  events : first.events = second.events

/-- An action is blind when it does not tell apart what cannot be seen. -/
def Blind {α β : Type} (counters : Bool) (related : β → β → Prop)
    (action : Ring α → Outcome α β) : Prop :=
  ∀ ⦃first second : Ring α⦄, first.seen counters = second.seen counters →
    (action first).Agree counters related (action second)

theorem Blind.of_seen {α β : Type} {counters : Bool} {action : Ring α → Outcome α β}
    (hseen : ∀ ring, action (ring.seen counters) = (action ring).seen counters) :
    Blind counters Eq action := by
  intro first second hsame
  have hboth : (action first).seen counters = (action second).seen counters := by
    rw [← hseen, hsame, hseen]
  have hresult := congrArg Outcome.result hboth
  have hring := congrArg Outcome.ring hboth
  have hevents := congrArg Outcome.events hboth
  exact ⟨hresult, hring, hevents⟩

namespace Query

theorem answer_agree {α : Type} {counters : Bool} {first second : Ring α}
    (hsame : first.seen counters = second.seen counters) (question : Query) :
    (question.answer first).Agree counters (question.answer second) := by
  have hplain : ∀ shown : Ring α → Answer α, (∀ ring, shown (ring.seen counters) = shown ring) →
      (shown first).Agree counters (shown second) := by
    intro shown hshown
    rw [← hshown first, hsame, hshown second]
    exact .same _
  cases question with
  | counters =>
      cases hseen : counters with
      | false => exact .counters rfl _ _
      | true =>
          subst hseen
          exact hplain (Query.answer · _) fun _ => rfl
  | lastFailure => exact .report _ _
  | _ => exact hplain (Query.answer · _) fun _ => rfl

end Query

/-! ## Calls side by side -/

def Likeness.seen (α : Type) (counters : Bool) : Likeness α where
  rings first second := first.seen counters = second.seen counters
  answers := Answer.Agree counters
  storage_eq := Ring.storage_eq_of_seen
  overwrite_eq := Ring.overwrite_eq_of_seen
  pacing_eq := Ring.pacing_eq_of_seen
  fail _ _ _ hsame := hsame
  same _ := .same _
  waitedInsert verdict _ _ := .waitedInsert verdict
  waitedRemove verdict _ _ := .waitedRemove verdict

section

variable {α β : Type} {counters : Bool}

theorem Blind.keeps {related : β → β → Prop} {action : Ring α → Outcome α β}
    (hblind : Blind counters related action) :
    (Likeness.seen α counters).Keeps related action action :=
  fun _ _ hsame => ⟨(hblind hsame).result, (hblind hsame).ring, (hblind hsame).events⟩

theorem Likeness.kept_seen : (Likeness.seen α counters).Kept where
  offer item mode := Blind.keeps (.of_seen fun ring => ring.seen_offer counters item mode)
  take := Blind.keeps (.of_seen fun ring => ring.seen_take counters)
  integrity := Blind.keeps (.of_seen fun ring => ring.seen_integrity counters)
  itemAt offset hsame := by
    have hitem : ∀ ring : Ring α, (ring.seen counters).itemAt offset = ring.itemAt offset :=
      fun _ => rfl
    rw [← hitem, hsame, hitem]
  answer question hsame := question.answer_agree hsame
  forceIndices producer consumer := Blind.keeps (.of_seen fun _ => rfl)

theorem Likeness.controlled_seen : (Likeness.seen α counters).Controlled := by
  have hblind : ∀ {first second : Ring α} (change : Ring α → Ring α),
      (∀ ring, (change ring).seen counters = (change (ring.seen counters)).seen counters) →
        first.seen counters = second.seen counters →
          (change first).seen counters = (change second).seen counters := by
    intro first second change hchange hsame
    rw [hchange, hsame, ← hchange]
  exact controlled_of
    (fun storage => hblind (·.rebind storage) fun _ => by cases counters <;> rfl)
    (fun pacing => hblind ({ · with pacing := pacing }) fun _ => by cases counters <;> rfl)
    (fun enabled => hblind ({ · with overwrite := enabled }) fun _ => by cases counters <;> rfl)
    (hblind (fun ring => { ring with recorder := ring.recorder.reset })
      fun _ => by cases counters <;> rfl)
    (hblind ({ · with latch := .clear }) fun _ => by cases counters <;> rfl)

end

namespace SharedCall

variable {α : Type} {counters : Bool}

/-- No call lets the diagnostics have a part in what it does. -/
theorem blind_runAll (calls : List (SharedCall α)) :
    Blind counters (List.Forall₂ (Answer.Agree counters)) (runAll calls) := by
  intro first second hsame
  obtain ⟨hanswers, hring, hevents⟩ := Likeness.keeps_runAll (List.forall₂_same.mpr
    fun (call : SharedCall α) _ => Likeness.keeps_run Likeness.kept_seen call) hsame
  exact ⟨hanswers, hring, hevents⟩

end SharedCall

end SpscRing
