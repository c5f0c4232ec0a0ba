import SpscRing.Proofs.Parallel
/-!
# Sessions side by side

A likeness of rings that attempts and control keep is kept by whole sessions: their steps
and transcripts are alike as well, in the answers, in what can be seen after each call, and
in all events.
-/

namespace SpscRing

structure Step.Like {α ρ : Type} (replies : ρ → ρ → Prop) (snapshots : Snapshot → Snapshot → Prop)
    (first second : Step α ρ) : Prop where
  reply : replies first.reply second.reply
  after : snapshots first.after second.after
  events : first.events = second.events

inductive Reply.Like {α : Type} (answers : Answer α → Answer α → Prop)
    (snapshots : Snapshot → Snapshot → Prop) : Reply α → Reply α → Prop where
  | answer {first second : Answer α} (hanswers : answers first second) :
      Like answers snapshots (.answer first) (.answer second)
  | parts {first second : List (Step α (Answer α))}
      (hsteps : List.Forall₂ (Step.Like answers snapshots) first second) :
      Like answers snapshots (.parts first) (.parts second)

/-- Two sessions that went the same way, step by step, over stores that end up the same. -/
inductive Transcript.Like {α : Type} (answers : Answer α → Answer α → Prop)
    (snapshots : Snapshot → Snapshot → Prop) : Transcript α → Transcript α → Prop where
  | refused (fault : Fault) (events : List (Event α)) (stores : List (Memory α)) :
      Like answers snapshots (.refused fault events stores) (.refused fault events stores)
  | completed {first second : List (Step α (Reply α))}
      (hsteps : List.Forall₂ (Step.Like (Reply.Like answers snapshots) snapshots) first second)
      (stores : List (Memory α)) :
      Like answers snapshots (.completed first stores) (.completed second stores)

section

variable {α : Type} {answers : Answer α → Answer α → Prop} {snapshots : Snapshot → Snapshot → Prop}

theorem Step.Like.allEvents_eq {first second : Step α (Reply α)}
    (hlike : first.Like (Reply.Like answers snapshots) snapshots second) :
    first.allEvents = second.allEvents := by
  obtain ⟨reply, after, events⟩ := first
  obtain ⟨other, next, later⟩ := second
  obtain ⟨hreply, _, hevents⟩ := hlike
  have hevents : events = later := hevents
  subst hevents
  cases hreply with
  | answer => rfl
  | parts hsteps =>
      have hparts : ∀ {steps others : List (Step α (Answer α))},
          List.Forall₂ (Step.Like answers snapshots) steps others →
            steps.flatMap Step.events = others.flatMap Step.events := by
        intro steps others hsteps
        induction hsteps with
        | nil => rfl
        | cons hstep _ ih => rw [List.flatMap_cons, List.flatMap_cons, hstep.events, ih]
      exact congrArg (· ++ events) (hparts hsteps)

theorem allEvents_eq_of_like {steps others : List (Step α (Reply α))}
    (hsteps : List.Forall₂ (Step.Like (Reply.Like answers snapshots) snapshots) steps others) :
    steps.flatMap Step.allEvents = others.flatMap Step.allEvents := by
  induction hsteps with
  | nil => rfl
  | cons hstep _ ih => rw [List.flatMap_cons, List.flatMap_cons, hstep.allEvents_eq, ih]

end

namespace Likeness

open SharedCall

variable {α : Type} {like : Likeness α}

/-- Two sessions that lent the same memory to rings that are alike. -/
structure Sessions (like : Likeness α) (first second : Session α) : Prop where
  ring : like.rings first.ring second.ring
  stores : first.stores = second.stores
  lent : first.lent = second.lent

theorem Sessions.returned_eq {first second : Session α} (halike : like.Sessions first second) :
    first.returned = second.returned := by
  unfold Session.returned
  rw [like.storage_eq halike.ring, halike.stores, halike.lent]

theorem keeps_lend (hcontrolled : like.Controlled) {first second : Session α}
    (halike : like.Sessions first second) (store : Option Nat) (line : UInt32) :
    (first.lend store line).1.Like like.rings Eq (second.lend store line).1 ∧
      like.Sessions (first.lend store line).2 (second.lend store line).2 := by
  unfold Session.lend
  rw [halike.returned_eq]
  have hsetUp := fun storage => hcontrolled.setUp storage line halike.ring
  exact ⟨hsetUp _, (hsetUp _).ring, rfl, rfl⟩

def Performs (like : Likeness α) (snapshots : Snapshot → Snapshot → Prop)
    (call other : Call α) : Prop :=
  ∀ ⦃first second : Session α⦄, like.Sessions first second →
    (first.perform call).1.Like (Reply.Like like.answers snapshots) snapshots
        (second.perform other).1 ∧
      like.Sessions (first.perform call).2 (second.perform other).2

section

variable {snapshots : Snapshot → Snapshot → Prop}
  (hsnapshot : ∀ {first second : Ring α}, like.rings first second →
    snapshots first.snapshot second.snapshot)

include hsnapshot

theorem performs_change {call other : Call α} {action others : Ring α → Outcome α (Answer α)}
    (hcall : ∀ session : Session α, session.perform call = session.change action)
    (hother : ∀ session : Session α, session.perform other = session.change others)
    (hkeeps : like.Keeps like.answers action others) : like.Performs snapshots call other := by
  intro first second halike
  rw [hcall, hother]
  obtain ⟨ring, stores, lent⟩ := first
  obtain ⟨next, _, _⟩ := second
  obtain ⟨hrings, rfl, rfl⟩ := halike
  obtain ⟨hanswer, hnext, hevents⟩ := hkeeps hrings
  exact ⟨⟨.answer hanswer, hsnapshot hnext, hevents⟩, hnext, rfl, rfl⟩

theorem stepAll_like {calls others : List (SharedCall α)}
    (hcalls : List.Forall₂ (fun call other => like.Keeps like.answers call.run other.run) calls
      others) {first second : Ring α} (hrings : like.rings first second) :
    List.Forall₂ (Step.Like like.answers snapshots) (stepAll calls first).1
        (stepAll others second).1 ∧
      like.rings (stepAll calls first).2 (stepAll others second).2 := by
  induction hcalls generalizing first second with
  | nil => exact ⟨.nil, hrings⟩
  | cons hcall _ ih =>
      obtain ⟨hanswer, hnext, hevents⟩ := hcall hrings
      obtain ⟨hsteps, hfinal⟩ := ih hnext
      exact ⟨.cons ⟨hanswer, hsnapshot hnext, hevents⟩ hsteps, hfinal⟩

theorem performs_split {calls others : List (SharedCall α)}
    (hcalls : List.Forall₂ (fun call other => like.Keeps like.answers call.run other.run) calls
      others) : like.Performs snapshots (.split calls) (.split others) := by
  intro first second halike
  obtain ⟨ring, stores, lent⟩ := first
  obtain ⟨next, _, _⟩ := second
  obtain ⟨hrings, rfl, rfl⟩ := halike
  obtain ⟨hsteps, hfinal⟩ := stepAll_like hsnapshot hcalls hrings
  exact ⟨⟨.parts hsteps, hsnapshot hfinal, rfl⟩, hfinal, rfl, rfl⟩

theorem performs_control (hcontrolled : like.Controlled) {call : Call α}
    (hshared : ∀ shared, call ≠ .shared shared) (hsplit : ∀ calls, call ≠ .split calls) :
    like.Performs snapshots call call := by
  cases call with
  | shared shared => exact absurd rfl (hshared shared)
  | split calls => exact absurd rfl (hsplit calls)
  | setUp store line =>
      intro first second halike
      obtain ⟨⟨hresult, hring, hevents⟩, hnext⟩ := keeps_lend hcontrolled halike store line
      refine ⟨⟨?_, hsnapshot hring, hevents⟩, hnext⟩
      show Reply.Like _ _ (.answer (.unit (first.lend store line).1.result)) (.answer (.unit _))
      rw [hresult]
      exact .answer (like.same rfl)
  | setPacing pacing line =>
      exact performs_change hsnapshot (fun _ => rfl) (fun _ => rfl) fun _ _ hrings =>
        answered (hcontrolled.setPacing pacing line hrings) .unit fun _ => rfl
  | setOverwrite enabled =>
      exact performs_change hsnapshot (fun _ => rfl) (fun _ => rfl) fun _ _ hrings =>
        answered (hcontrolled.setOverwrite enabled hrings) (fun _ => .done) fun _ => rfl
  | resetCounters =>
      exact performs_change hsnapshot (fun _ => rfl) (fun _ => rfl) fun _ _ hrings =>
        answered (hcontrolled.resetCounters hrings) (fun _ => .done) fun _ => rfl
  | clearFailure =>
      exact performs_change hsnapshot (fun _ => rfl) (fun _ => rfl) fun _ _ hrings =>
        answered (hcontrolled.clearFailure hrings) (fun _ => .done) fun _ => rfl

theorem performs_self (hkept : like.Kept) (hcontrolled : like.Controlled) (call : Call α) :
    like.Performs snapshots call call := by
  cases call with
  | shared call =>
      exact performs_change hsnapshot (fun _ => rfl) (fun _ => rfl) (keeps_run hkept call)
  | split calls =>
      exact performs_split hsnapshot (List.forall₂_same.mpr fun call _ => keeps_run hkept call)
  | _ => exact performs_control hsnapshot hcontrolled nofun nofun

end

theorem performAll_like {snapshots : Snapshot → Snapshot → Prop} {calls others : List (Call α)}
    (hcalls : List.Forall₂ (like.Performs snapshots) calls others) {first second : Session α}
    (halike : like.Sessions first second) :
    List.Forall₂ (Step.Like (Reply.Like like.answers snapshots) snapshots)
        (first.performAll calls).1 (second.performAll others).1 ∧
      like.Sessions (first.performAll calls).2 (second.performAll others).2 := by
  induction hcalls generalizing first second with
  | nil => exact ⟨.nil, halike⟩
  | cons hcall _ ih =>
      obtain ⟨hstep, hnext⟩ := hcall halike
      obtain ⟨hsteps, hfinal⟩ := ih hnext
      exact ⟨.cons hstep hsteps, hfinal⟩

theorem complete_like {snapshots : Snapshot → Snapshot → Prop} {calls others : List (Call α)}
    (hcalls : List.Forall₂ (like.Performs snapshots) calls others) {first second : Session α}
    (halike : like.Sessions first second) {opened also : Step α (Reply α)}
    (hopened : opened.Like (Reply.Like like.answers snapshots) snapshots also) :
    (first.complete opened calls).Like like.answers snapshots (second.complete also others) := by
  obtain ⟨hsteps, hfinal⟩ := performAll_like hcalls halike
  show Transcript.Like _ _ (.completed (opened :: (first.performAll calls).1) _)
    (.completed (also :: (second.performAll others).1) (second.performAll others).2.returned)
  rw [hfinal.returned_eq]
  exact .completed (.cons hopened hsteps) _

/-- Sessions that begin alike and are made alike calls have alike transcripts. -/
theorem run_like (hcontrolled : like.Controlled) {snapshots : Snapshot → Snapshot → Prop}
    (hsnapshot : ∀ {first second : Ring α}, like.rings first second →
      snapshots first.snapshot second.snapshot)
    {build other : Build} {stores : List (Memory α)}
    (hfresh : like.rings (Session.fresh build stores).ring (Session.fresh other stores).ring)
    (opening : Opening) {calls others : List (Call α)}
    (hcalls : List.Forall₂ (like.Performs snapshots) calls others) :
    (Session.run build opening stores calls).Like like.answers snapshots
      (Session.run other opening stores others) := by
  have hbegun : like.Sessions (Session.fresh build stores) (Session.fresh other stores) :=
    ⟨hfresh, rfl, rfl⟩
  unfold Session.run
  cases opening with
  | unbound => exact complete_like hcalls hbegun ⟨.answer (like.same rfl), hsnapshot hfresh, rfl⟩
  | bound line =>
      obtain ⟨⟨_, hring, hevents⟩, hopened⟩ := keeps_lend hcontrolled hbegun (some 0) line
      exact complete_like hcalls hopened ⟨.answer (like.same rfl), hsnapshot hring, hevents⟩
  | tryBound line =>
      obtain ⟨⟨hresult, hring, hevents⟩, hopened⟩ := keeps_lend hcontrolled hbegun (some 0) line
      simp only [hresult]
      split
      · rw [hevents, hopened.returned_eq]
        exact .refused _ _ _
      · exact complete_like hcalls hopened ⟨.answer (like.same rfl), hsnapshot hring, hevents⟩

end Likeness

end SpscRing
