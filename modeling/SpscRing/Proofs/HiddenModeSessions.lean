import SpscRing.Proofs.HiddenMode
import SpscRing.Proofs.Placement
import SpscRing.Proofs.Queue
/-!
# Sessions in which the mode cannot be seen

From two rings that differ in their modes alone, any calls are the same steps where the mode
is hidden, as long as no insert meets a full ring. A ring of one slot has no item to drop, so
that its mode is never seen at all.
-/

namespace SpscRing

/-! ## What is told of the mode -/

def Step.hideMode {α ρ : Type} (hide : ρ → ρ) (step : Step α ρ) : Step α ρ where
  reply := hide step.reply
  after := { step.after with overwrite := false }
  events := step.events

def hideModeSteps {α κ ρ : Type} (hide : κ → (ρ → ρ)) (calls : List κ) (steps : List (Step α ρ)) :
    List (Step α ρ) :=
  List.zipWith (fun call step => step.hideMode (hide call)) calls steps

def Call.hideMode {α : Type} : Call α → (Reply α → Reply α)
  | .shared call => fun reply =>
    match reply with
    | .answer answer => .answer (call.hideMode answer)
    | .parts steps => .parts steps
  | .split calls => fun reply =>
    match reply with
    | .answer answer => .answer answer
    | .parts steps => .parts (hideModeSteps SharedCall.hideMode calls steps)
  | _ => id

def Session.inMode {α : Type} (mode : Bool) (session : Session α) : Session α :=
  { session with ring := session.ring.inMode mode }

section

variable {α β : Type} {mode : Bool}

theorem Outcome.AlikeIn.step {hide : β → β} {outcome other : Outcome α β}
    (halike : outcome.AlikeIn mode hide other) :
    other.step.1.hideMode hide = outcome.step.1.hideMode hide := by
  obtain ⟨result, ring, events⟩ := outcome
  obtain ⟨told, next, later⟩ := other
  obtain ⟨hresult, hring, hevents⟩ := halike
  have hring : next = ring.inMode mode := hring
  have hevents : later = events := hevents
  subst hring hevents
  exact congrArg (Step.mk · { ring.snapshot with overwrite := false } later) hresult

theorem SharedCall.stepAll_inMode (mode : Bool) (calls : List (SharedCall α)) (ring : Ring α)
    (hnever : NeverFull ((stepAll calls ring).1.flatMap Step.events)) :
    hideModeSteps hideMode calls (stepAll calls (ring.inMode mode)).1 =
        hideModeSteps hideMode calls (stepAll calls ring).1 ∧
      (stepAll calls (ring.inMode mode)).2 = (stepAll calls ring).2.inMode mode := by
  induction calls generalizing ring with
  | nil => exact ⟨rfl, rfl⟩
  | cons call later ih =>
      obtain ⟨hfirst, hrest⟩ := neverFull_append.mp hnever
      have halike := modeless_run call mode ring hfirst
      obtain ⟨hsteps, hfinal⟩ := ih (call.run ring).ring hrest
      rw [← halike.ring] at hsteps hfinal
      exact ⟨List.cons_eq_cons.mpr ⟨halike.step, hsteps⟩, hfinal⟩

end

/-! ## Calls of a session -/

namespace Session

variable {α : Type} {mode : Bool}

theorem change_inMode (session : Session α) (hide : Reply α → Reply α)
    (action : Ring α → Outcome α (Answer α))
    (halike : ((action session.ring).map Reply.answer).AlikeIn mode hide
      ((action (session.ring.inMode mode)).map Reply.answer)) :
    ((session.inMode mode).change action).1.hideMode hide =
        (session.change action).1.hideMode hide ∧
      ((session.inMode mode).change action).2 = (session.change action).2.inMode mode := by
  obtain ⟨ring, stores, lent⟩ := session
  exact ⟨halike.step, congrArg (Session.mk · stores lent) halike.ring⟩

theorem perform_setUp_inMode (session : Session α) (store : Option Nat) (line : UInt32) :
    (session.inMode mode).perform (.setUp store line) = session.perform (.setUp store line) := by
  have hsetUp : ∀ storage, (session.ring.inMode mode).setUp storage line =
      session.ring.setUp storage line := by
    intro storage
    cases storage with
    | absent | noCells | lent => rfl
  have hlend : (session.inMode mode).lend store line = session.lend store line := by
    have hreturned : (session.inMode mode).returned = session.returned := rfl
    simp only [lend, hreturned]
    rw [show (session.inMode mode).ring = session.ring.inMode mode from rfl, hsetUp]
  simp only [perform, hlend]

theorem perform_inMode (session : Session α) (call : Call α)
    (hnever : NeverFull (session.perform call).1.allEvents) :
    ((session.inMode mode).perform call).1.hideMode call.hideMode =
        (session.perform call).1.hideMode call.hideMode ∧
      ∃ later, ((session.inMode mode).perform call).2 = (session.perform call).2.inMode later := by
  cases call with
  | shared call =>
      have halike := SharedCall.modeless_run call mode session.ring hnever
      obtain ⟨hstep, hnext⟩ := session.change_inMode (Call.shared call).hideMode call.run
        ⟨congrArg Reply.answer halike.result, halike.ring, halike.events⟩
      exact ⟨hstep, mode, hnext⟩
  | setUp store line =>
      rw [perform_setUp_inMode]
      exact ⟨rfl, _, rfl⟩
  | setPacing pacing line =>
      have hpaced : (session.ring.inMode mode).setPacing pacing line =
          (session.ring.setPacing pacing line).inMode mode := by
        unfold Ring.setPacing
        split <;> rfl
      obtain ⟨hstep, hnext⟩ := session.change_inMode id
        (fun ring => (ring.setPacing pacing line).map .unit)
        (by rw [hpaced]; exact ⟨rfl, rfl, rfl⟩)
      exact ⟨hstep, mode, hnext⟩
  | setOverwrite enabled => exact ⟨rfl, enabled, rfl⟩
  | resetCounters => exact ⟨rfl, mode, rfl⟩
  | clearFailure => exact ⟨rfl, mode, rfl⟩
  | split calls =>
      obtain ⟨ring, stores, lent⟩ := session
      obtain ⟨hsteps, hring⟩ :=
        SharedCall.stepAll_inMode mode calls ring (neverFull_append.mp hnever).1
      let parts (ring : Ring α) : Outcome α (Reply α) :=
        ⟨.parts (SharedCall.stepAll calls ring).1, (SharedCall.stepAll calls ring).2, []⟩
      have halike : (parts ring).AlikeIn mode (Call.split calls).hideMode
          (parts (ring.inMode mode)) := ⟨congrArg Reply.parts hsteps, hring, rfl⟩
      exact ⟨halike.step, mode, congrArg (Session.mk · stores lent) halike.ring⟩

end Session

/-! ## Rings of one slot -/

namespace Ring

variable {α : Type} {stray : Bool} {ring next : Ring α} {events : List (Event α)}

theorem neverFull_take (ring : Ring α) : NeverFull ring.take.events := by
  have hend := ring.taken
  generalize ring.take = outcome at hend ⊢
  cases hend with
  | inert => exact List.forall_mem_nil _
  | corrupted | empty | delivered => exact List.forall_mem_singleton.mpr rfl

theorem neverFull_integrity (ring : Ring α) : NeverFull ring.integrity.events := by
  have hend := ring.checked
  generalize ring.integrity = outcome at hend ⊢
  cases hend with
  | inert | sound => exact List.forall_mem_nil _
  | corrupted => exact List.forall_mem_singleton.mpr rfl

theorem Move.neverFull (hmove : Move stray ring events next)
    (hroom : ¬(2 ≤ ring.capacity.toNat ∧ ring.occupancy.toNat + 1 = ring.capacity.toNat)) :
    NeverFull events := by
  cases hmove with
  | offer _ item => exact (ring.neverFull_offer item ring.overwrite).mpr hroom
  | take => exact ring.neverFull_take
  | check => exact ring.neverFull_integrity
  | fail | giveUp | force => exact List.forall_mem_singleton.mpr rfl

/-- A ring of one slot has no item that could be dropped, whatever moves are made on it. -/
theorem Course.narrow (hcourse : Course (Move stray) ring events next)
    (hnarrow : ring.capacity.toNat ≤ 1) : NeverFull events ∧ next.capacity = ring.capacity := by
  induction hcourse with
  | rest => exact ⟨List.forall_mem_nil _, rfl⟩
  | step _ hmove ih =>
      obtain ⟨hearlier, hcapacity⟩ := ih
      have hlater := hmove.neverFull (by rw [hcapacity]; omega)
      exact ⟨neverFull_append.mpr ⟨hearlier, hlater⟩, hmove.writes.capacity_eq.trans hcapacity⟩

end Ring

namespace Session

variable {α : Type}

theorem narrow_perform {session : Session α} (hnarrow : session.ring.capacity.toNat ≤ 1)
    {call : Call α} (hcall : ∀ store line, call ≠ .setUp store line) :
    NeverFull (session.perform call).1.allEvents ∧
      (session.perform call).2.ring.capacity = session.ring.capacity := by
  have hcontrol : ∀ {event : Event α}, event.meetsFull = false → NeverFull [event] := fun hevent =>
    List.forall_mem_singleton.mpr hevent
  cases call with
  | shared | split => exact Ring.Course.narrow (session.moves_perform rfl (.inl rfl)) hnarrow
  | setUp store line => exact absurd rfl (hcall store line)
  | setPacing pacing line =>
      have hend := session.ring.paced pacing line
      show NeverFull (session.ring.setPacing pacing line).events ∧
        (session.ring.setPacing pacing line).ring.capacity = session.ring.capacity
      generalize session.ring.setPacing pacing line = outcome at hend ⊢
      cases hend with
      | installed | refused => exact ⟨hcontrol rfl, rfl⟩
  | setOverwrite | resetCounters | clearFailure => exact ⟨hcontrol rfl, rfl⟩

/-! ## Runs of calls -/

/-- Calls that are the same steps in another mode, where the mode is hidden, and leave the same
session but for the mode of its ring. -/
structure AlikeIn (session : Session α) (mode : Bool) (calls : List (Call α)) : Prop where
  steps : hideModeSteps Call.hideMode calls ((session.inMode mode).performAll calls).1 =
    hideModeSteps Call.hideMode calls (session.performAll calls).1
  after : ∃ later, ((session.inMode mode).performAll calls).2 =
    (session.performAll calls).2.inMode later

theorem AlikeIn.cons {session : Session α} {mode : Bool} {call : Call α} {later : List (Call α)}
    (hfirst : NeverFull (session.perform call).1.allEvents)
    (hlater : ∀ mode, (session.perform call).2.AlikeIn mode later) :
    session.AlikeIn mode (call :: later) := by
  obtain ⟨hstep, other, hnext⟩ := session.perform_inMode call hfirst
  obtain ⟨hsteps, hafter⟩ := hlater other
  rw [← hnext] at hsteps hafter
  exact ⟨List.cons_eq_cons.mpr ⟨hstep, hsteps⟩, hafter⟩

theorem alikeIn_of_neverFull (calls : List (Call α)) (session : Session α)
    (hnever : NeverFull ((session.performAll calls).1.flatMap Step.allEvents)) (mode : Bool) :
    session.AlikeIn mode calls := by
  induction calls generalizing session mode with
  | nil => exact ⟨rfl, mode, rfl⟩
  | cons call later ih =>
      obtain ⟨hfirst, hrest⟩ := neverFull_append.mp hnever
      exact .cons hfirst (ih _ hrest)

theorem alikeIn_of_narrow (calls : List (Call α)) (session : Session α)
    (hnarrow : session.ring.capacity.toNat ≤ 1) (mode : Bool) : session.AlikeIn mode calls := by
  induction calls generalizing session mode with
  | nil => exact ⟨rfl, mode, rfl⟩
  | cons call later ih =>
      by_cases hcall : ∀ store line, call ≠ .setUp store line
      · obtain ⟨hfirst, hcapacity⟩ := narrow_perform hnarrow hcall
        exact .cons hfirst (ih _ (by rw [hcapacity]; exact hnarrow))
      · -- From then on the two sessions are one.
        simp only [ne_eq, not_forall, not_not] at hcall
        obtain ⟨store, line, rfl⟩ := hcall
        have hsame : (session.inMode mode).performAll (.setUp store line :: later) =
            session.performAll (.setUp store line :: later) := by
          rw [performAll, performAll, perform_setUp_inMode]
        refine ⟨by rw [hsame], _, (congrArg Prod.snd hsame).trans rfl⟩

/-- Two rings that differ in their modes alone, with any memory and any indices, are told apart
by no calls in which no insert meets a full ring of two slots or more, and on a ring of one slot
by no calls at all: the answers and the traces of waits are the same but where the mode is asked
for, by others during a wait as well, and so are the events; after any of the calls the rings
still differ in their modes alone. An insert tells by its events whether it met a full ring. The
two ways of taking an item off leave the same behind on every ring. -/
theorem mode_hidden_until_full (session : Session α) (mode : Bool) (calls : List (Call α))
    (hroom : session.ring.capacity.toNat ≤ 1 ∨
      NeverFull ((session.performAll calls).1.flatMap Step.allEvents)) :
    (∀ made, made <+: calls → session.AlikeIn mode made) ∧
      (∀ (ring : Ring α) (item : α) (overwrite : Bool),
        NeverFull (ring.offer item overwrite).events ↔
          ¬(2 ≤ ring.capacity.toNat ∧ ring.occupancy.toNat + 1 = ring.capacity.toNat)) ∧
      ∀ ring : Ring α, (ring.inMode mode).take = ring.take.inMode mode := by
  refine ⟨?runs, Ring.neverFull_offer, fun ring => ring.inMode_take mode⟩
  rintro made ⟨later, rfl⟩
  rcases hroom with hnarrow | hnever
  · exact alikeIn_of_narrow made session hnarrow mode
  · rw [performAll_append, List.flatMap_append] at hnever
    exact alikeIn_of_neverFull made session (neverFull_append.mp hnever).1 mode

theorem mode_hidden_until_full_astride :
    let calls : List (Call Nat) :=
      [.shared (.remove 1), .shared (.insert 30 2), .shared (.query .overwriteEnabled),
        .split [.removeMany [0, 0, 0] 4,
          .removeWithin (.ofMillis 5) (.exact .zero) [[.query .text, .insert 40 6]] 5]]
    NeverFull ((astride.performAll calls).1.flatMap Step.allEvents) ∧
      astride.AlikeIn true calls ∧ (astride.performAll calls).2.ring.contents = [] ∧
      ((astride.performAll calls).1.map Step.reply)[2]? = some (.answer (.flag false)) ∧
      (((astride.inMode true).performAll calls).1.map Step.reply)[2]? =
        some (.answer (.flag true)) := by
  intro calls
  have hnever : NeverFull ((astride.performAll calls).1.flatMap Step.allEvents) := by decide
  obtain ⟨hruns, _⟩ := mode_hidden_until_full astride true calls (.inr hnever)
  exact ⟨hnever, hruns calls (List.prefix_refl calls), by decide, rfl, rfl⟩

end Session

end SpscRing
