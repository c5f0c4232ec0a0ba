import SpscRing.Proofs.Diagnostics
import SpscRing.Proofs.ParallelSessions
/-!
# Transparent diagnostics

A build that leaves the diagnostics out does what the other build does, and shows zeros for
the counters. In one build, rings that differ in their counters and their record of failures
do the same from then on, so that calls which only reset these may come and go.
-/

namespace SpscRing

/-! ## The bare build -/

def Mask.bare : Mask where
  latch := id
  recorder _ := .off
  record_recorder _ _ := rfl

/-- An answer, and the same answer of a ring that keeps no counters: it reads zeros, and so
do others meanwhile. -/
inductive Answer.Bared {α : Type} : Answer α → Answer α → Prop where
  | same {answer : Answer α} (hplain : answer.isPlain = true) : Bared answer answer
  | counters (value : Counters) : Bared (.counters value) (.counters .zero)
  | waitedInsert (verdict : Verdict Unit) {first second : List (Beat Unit (List (Answer α)))}
      (htraces : List.Forall₂ (Beat.Agree (List.Forall₂ Bared)) first second) :
      Bared (.waitedInsert verdict first) (.waitedInsert verdict second)
  | waitedRemove (verdict : Verdict α) {first second : List (Beat α (List (Answer α)))}
      (htraces : List.Forall₂ (Beat.Agree (List.Forall₂ Bared)) first second) :
      Bared (.waitedRemove verdict first) (.waitedRemove verdict second)

def Snapshot.Bared (first second : Snapshot) : Prop := second = { first with counters := .zero }

def Likeness.bared (α : Type) : Likeness α where
  rings first second := second = first.masked .bare
  answers := Answer.Bared
  storage_eq hbare := (congrArg Ring.storage hbare).symm
  overwrite_eq hbare := (congrArg Ring.overwrite hbare).symm
  pacing_eq hbare := (congrArg Ring.pacing hbare).symm
  fail operation fault line hbare :=
    congrArg (fun ring => { ring with latch := .ofFailure operation fault line }) hbare
  same := .same
  waitedInsert verdict _ _ := .waitedInsert verdict
  waitedRemove verdict _ _ := .waitedRemove verdict

section

variable {α β : Type}

theorem Likeness.keeps_bared {action : Ring α → Outcome α β}
    (hmasked : ∀ ring, action (ring.masked .bare) = (action ring).masked .bare) :
    (Likeness.bared α).Keeps Eq action action := by
  rintro ring _ rfl
  rw [hmasked]
  exact ⟨rfl, rfl, rfl⟩

theorem Query.answer_bared (question : Query) (ring : Ring α) :
    (question.answer ring).Bared (question.answer (ring.masked .bare)) := by
  cases question with
  | counters => exact .counters ring.counters
  | _ => exact .same rfl

theorem Likeness.kept_bared : (Likeness.bared α).Kept where
  offer item mode := keeps_bared fun ring => ring.masked_offer .bare item mode
  take := keeps_bared fun ring => ring.masked_take .bare
  integrity := keeps_bared fun ring => ring.masked_integrity .bare
  itemAt := by
    rintro ring _ offset rfl
    rfl
  answer := by
    rintro ring _ question rfl
    exact question.answer_bared ring
  forceIndices producer consumer := keeps_bared fun _ => rfl

theorem Likeness.controlled_bared : (Likeness.bared α).Controlled := by
  have hsame : ∀ {first second : Ring α} (change : Ring α → Ring α),
      (∀ ring, change (ring.masked .bare) = (change ring).masked .bare) →
        second = first.masked .bare → change second = (change first).masked .bare := by
    rintro first _ change hchange rfl
    exact hchange first
  exact controlled_of
    (fun storage => hsame (·.rebind storage) fun _ => rfl)
    (fun pacing => hsame ({ · with pacing := pacing }) fun _ => rfl)
    (fun enabled => hsame ({ · with overwrite := enabled }) fun _ => rfl)
    (hsame (fun ring => { ring with recorder := ring.recorder.reset }) fun _ => rfl)
    (hsame ({ · with latch := .clear }) fun _ => rfl)

theorem Ring.snapshot_bared {first second : Ring α} (hbare : second = first.masked .bare) :
    first.snapshot.Bared second.snapshot := by
  subst hbare
  rfl

theorem Session.run_bared (opening : Opening) (stores : List (Memory α)) (calls : List (Call α)) :
    (run .full opening stores calls).Like Answer.Bared Snapshot.Bared
      (run .bare opening stores calls) := by
  have hfresh : (Likeness.bared α).rings (fresh .full stores).ring (fresh .bare stores).ring := rfl
  have hcalls : List.Forall₂ ((Likeness.bared α).Performs Snapshot.Bared) calls calls :=
    List.forall₂_same.mpr fun call _ =>
      Likeness.performs_self Ring.snapshot_bared Likeness.kept_bared Likeness.controlled_bared call
  exact Likeness.run_like Likeness.controlled_bared Ring.snapshot_bared hfresh opening hcalls

end

/-! ## Calls that reset no more than the diagnostics -/

def Call.acts {α : Type} : Call α → Bool
  | .resetCounters | .clearFailure => false
  | _ => true

/-- The same sequence of members that meet a condition, with others in between. -/
inductive Interspersed {β : Type} (acts : β → Bool) : List β → List β → Prop where
  | nil : Interspersed acts [] []
  | left {idle : β} {first second : List β} (hidle : acts idle = false)
      (hlater : Interspersed acts first second) : Interspersed acts (idle :: first) second
  | right {idle : β} {first second : List β} (hidle : acts idle = false)
      (hlater : Interspersed acts first second) : Interspersed acts first (idle :: second)
  | both {member : β} {first second : List β} (hacts : acts member = true)
      (hlater : Interspersed acts first second) :
      Interspersed acts (member :: first) (member :: second)

theorem interspersed_of_filter_eq {β : Type} {acts : β → Bool} {first second : List β}
    (hsame : first.filter acts = second.filter acts) : Interspersed acts first second := by
  induction first generalizing second with
  | nil =>
      induction second with
      | nil => exact .nil
      | cons other rest ih =>
          by_cases hother : acts other = true
          · simp [hother] at hsame
          · rw [List.filter_cons_of_neg hother] at hsame
            exact .right (Bool.of_not_eq_true hother) (ih hsame)
  | cons member later ih =>
      by_cases hmember : acts member = true
      · -- The member comes up in the second list as well, behind idle ones.
        induction second with
        | nil => simp [hmember] at hsame
        | cons other rest ihrest =>
            by_cases hother : acts other = true
            · rw [List.filter_cons_of_pos hmember, List.filter_cons_of_pos hother] at hsame
              obtain ⟨rfl, hrest⟩ := List.cons.inj hsame
              exact .both hmember (ih hrest)
            · rw [List.filter_cons_of_neg hother] at hsame
              exact .right (Bool.of_not_eq_true hother) (ihrest hsame)
      · rw [List.filter_cons_of_neg hmember] at hsame
        exact .left (Bool.of_not_eq_true hmember) (ih hsame)

def Snapshot.Agree (first second : Snapshot) : Prop :=
  second = { first with counters := second.counters, lastFailure := second.lastFailure }

def Step.Agree {α : Type} (first second : Step α (Reply α)) : Prop :=
  first.Like (Reply.Like (Answer.Agree false) Snapshot.Agree) Snapshot.Agree second

theorem Ring.snapshot_agree {α : Type} {first second : Ring α}
    (hsame : first.seen false = second.seen false) : first.snapshot.Agree second.snapshot := by
  have hshown : ∀ ring : Ring α, ring.snapshot =
      { (ring.seen false).snapshot with
        counters := ring.counters, lastFailure := ring.lastFailure } := fun _ => rfl
  rw [Snapshot.Agree, hshown first, hshown second, hsame]

namespace Session

variable {α : Type}

def seen (session : Session α) : Session α := { session with ring := session.ring.seen false }

def actingSteps (session : Session α) (calls : List (Call α)) : List (Step α (Reply α)) :=
  ((calls.zip (session.performAll calls).1).filter fun made => made.1.acts).map Prod.snd

theorem sessions_of_seen {first second : Session α} (hsame : first.seen = second.seen) :
    (Likeness.seen α false).Sessions first second := by
  simp only [seen, Session.mk.injEq] at hsame
  obtain ⟨hring, hstores, hlent⟩ := hsame
  exact ⟨hring, hstores, hlent⟩

theorem seen_of_sessions {first second : Session α}
    (halike : (Likeness.seen α false).Sessions first second) : first.seen = second.seen := by
  obtain ⟨hring, hstores, hlent⟩ := halike
  have hring : first.ring.seen false = second.ring.seen false := hring
  simp only [seen, hring, hstores, hlent]

theorem actingSteps_cons_of_acts (session : Session α) {call : Call α} (later : List (Call α))
    (hacts : call.acts = true) :
    session.actingSteps (call :: later) =
      (session.perform call).1 :: (session.perform call).2.actingSteps later := by
  simp [actingSteps, performAll, hacts]

theorem actingSteps_cons_of_idle (session : Session α) {call : Call α} (later : List (Call α))
    (hidle : call.acts = false) :
    session.actingSteps (call :: later) = (session.perform call).2.actingSteps later := by
  simp [actingSteps, performAll, hidle]

/-- A call that only resets diagnostics is not to be seen, and leaves no line in the log. -/
theorem seen_perform_of_idle (session : Session α) {call : Call α} (hidle : call.acts = false) :
    (session.perform call).2.seen = session.seen ∧
      logLines (session.perform call).1.allEvents = [] := by
  cases call with
  | resetCounters | clearFailure => exact ⟨rfl, rfl⟩
  | _ => cases hidle

theorem performs_seen (call : Call α) :
    (Likeness.seen α false).Performs Snapshot.Agree call call :=
  Likeness.performs_self Ring.snapshot_agree Likeness.kept_seen Likeness.controlled_seen call

theorem performAll_of_seen {first second : Session α} (hsame : first.seen = second.seen)
    (calls : List (Call α)) :
    List.Forall₂ Step.Agree (first.performAll calls).1 (second.performAll calls).1 ∧
      (first.performAll calls).2.seen = (second.performAll calls).2.seen := by
  obtain ⟨hsteps, hfinal⟩ := Likeness.performAll_like
    (List.forall₂_same.mpr fun call _ => performs_seen call) (sessions_of_seen hsame)
  exact ⟨hsteps, seen_of_sessions hfinal⟩

/-- Two runs of the same acting calls go the same way, whatever is reset in between. -/
theorem performAll_of_interspersed {calls others : List (Call α)}
    (hcalls : Interspersed Call.acts calls others) {first second : Session α}
    (hsame : first.seen = second.seen) :
    List.Forall₂ Step.Agree (first.actingSteps calls) (second.actingSteps others) ∧
      logLines ((first.performAll calls).1.flatMap Step.allEvents) =
        logLines ((second.performAll others).1.flatMap Step.allEvents) ∧
      (first.performAll calls).2.seen = (second.performAll others).2.seen := by
  induction hcalls generalizing first second with
  | nil => exact ⟨.nil, rfl, hsame⟩
  | @left idle later others hidle _ ih =>
      obtain ⟨hseen, hsilent⟩ := first.seen_perform_of_idle hidle
      obtain ⟨hsteps, hlog, hfinal⟩ := ih (hseen.trans hsame)
      rw [actingSteps_cons_of_idle first later hidle]
      refine ⟨hsteps, ?_, hfinal⟩
      rw [performAll, List.flatMap_cons, logLines_append, hsilent, hlog, List.nil_append]
  | @right idle calls later hidle _ ih =>
      obtain ⟨hseen, hsilent⟩ := second.seen_perform_of_idle hidle
      obtain ⟨hsteps, hlog, hfinal⟩ := ih (hsame.trans hseen.symm)
      rw [actingSteps_cons_of_idle second later hidle]
      refine ⟨hsteps, ?_, hfinal⟩
      rw [performAll, List.flatMap_cons, logLines_append, hsilent, ← hlog, List.nil_append]
  | @both call later others hacts _ ih =>
      obtain ⟨hstep, hnext⟩ := performs_seen call (sessions_of_seen hsame)
      obtain ⟨hsteps, hlog, hfinal⟩ := ih (seen_of_sessions hnext)
      rw [actingSteps_cons_of_acts first later hacts, actingSteps_cons_of_acts second others hacts]
      refine ⟨.cons hstep hsteps, ?_, hfinal⟩
      rw [performAll, performAll, List.flatMap_cons, List.flatMap_cons, logLines_append,
        logLines_append, hstep.allEvents_eq, hlog]

/-- Diagnostics take no part in what a ring does. A session goes the same way in the bare
build, over stores that end up the same, where it reads zeros for the counters and has no log.
In any state of a ring the counters and the record of failures may be others: from then on all
calls are the same steps but for reads of these two, with the same events, and leave the same
ring but for these two. So calls that reset them may be made, or left out, at any time: the
other calls are the same steps and write the same log, and what was told before stays as it
is. -/
theorem diagnostics_are_transparent :
    (∀ (opening : Opening) (stores : List (Memory α)) (calls : List (Call α)),
      (run .full opening stores calls).Like Answer.Bared Snapshot.Bared
        (run .bare opening stores calls)) ∧
      (∀ events : List (Event α), Build.bare.log events = []) ∧
      (∀ (first second : Session α) (calls : List (Call α)), first.seen = second.seen →
        List.Forall₂ Step.Agree (first.performAll calls).1 (second.performAll calls).1 ∧
          (first.performAll calls).2.seen = (second.performAll calls).2.seen) ∧
      (∀ (first second : Session α) (calls others : List (Call α)),
        first.seen = second.seen → calls.filter Call.acts = others.filter Call.acts →
          List.Forall₂ Step.Agree (first.actingSteps calls) (second.actingSteps others) ∧
            logLines ((first.performAll calls).1.flatMap Step.allEvents) =
              logLines ((second.performAll others).1.flatMap Step.allEvents) ∧
            (first.performAll calls).2.seen = (second.performAll others).2.seen) ∧
      ∀ (session : Session α) (earlier later : List (Call α)),
        (session.performAll earlier).1 <+: (session.performAll (earlier ++ later)).1 := by
  refine ⟨run_bared, fun _ => rfl, ?states, ?resets, ?earlier⟩
  case states =>
    intro first second calls hsame
    exact performAll_of_seen hsame calls
  case resets =>
    intro first second calls others hsame hcalls
    exact performAll_of_interspersed (interspersed_of_filter_eq hcalls) hsame
  case earlier =>
    intro session earlier later
    rw [performAll_append]
    exact List.prefix_append _ _

def worn : Session Nat where
  ring :=
    { (Ring.unbound (.on ⟨3, 9, 8, 2, 1⟩) : Ring Nat) with
      storage := .lent ⟨⟨#[0, 0], by decide⟩, by decide⟩
      latch := .ofFailure .remove .empty 4 }
  stores := []
  lent := none

theorem diagnostics_are_transparent_worn :
    let reset := (worn.performAll [.resetCounters, .clearFailure]).2
    let calls : List (Call Nat) := [.shared (.insert 7 2), .shared (.insert 8 3)]
    let others : List (Call Nat) :=
      [.shared (.insert 7 2), .resetCounters, .shared (.insert 8 3), .clearFailure]
    worn.seen = reset.seen ∧ calls.filter Call.acts = others.filter Call.acts ∧
      (worn.performAll calls).2.seen = (reset.performAll others).2.seen ∧
      (worn.performAll calls).2.ring.counters = ⟨3, 10, 8, 3, 1⟩ ∧
      (reset.performAll others).2.ring.counters = ⟨0, 0, 0, 1, 0⟩ := by
  intro reset calls others
  have hsame : worn.seen = reset.seen := rfl
  have hcalls : calls.filter Call.acts = others.filter Call.acts := rfl
  obtain ⟨_, _, _, hresets, _⟩ := diagnostics_are_transparent (α := Nat)
  obtain ⟨_, _, hfinal⟩ := hresets worn reset calls others hsame hcalls
  exact ⟨hsame, hcalls, hfinal, rfl, rfl⟩

end Session

end SpscRing
