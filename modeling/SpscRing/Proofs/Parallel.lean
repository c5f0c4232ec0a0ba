import Mathlib.Data.List.Forall2
import SpscRing.Proofs.Calls
/-!
# Runs side by side

Two runs over rings that are alike are followed side by side. In what respect they are alike
is left open here: a likeness that single attempts keep is carried through the loop of a
wait, and through the calls that others make meanwhile.
-/

namespace SpscRing

/-! ## What is compared -/

inductive Beat.Agree {β ρ : Type} (related : ρ → ρ → Prop) : Beat β ρ → Beat β ρ → Prop where
  | now : Agree related .now .now
  | attempt (outcome : Except Fault β) : Agree related (.attempt outcome) (.attempt outcome)
  | elapsed (reading : Duration) : Agree related (.elapsed reading) (.elapsed reading)
  | sleep (length : Duration) {first second : ρ} (hreports : related first second) :
      Agree related (.sleep length first) (.sleep length second)

/-- Whether an answer shows neither counters nor what others were told meanwhile. -/
def Answer.isPlain {α : Type} : Answer α → Bool
  | .counters _ | .waitedInsert _ _ | .waitedRemove _ _ => false
  | _ => true

inductive Answer.Like {α : Type} (differ : Answer α → Answer α → Prop) :
    Answer α → Answer α → Prop where
  | same (answer : Answer α) : Like differ answer answer
  | apart {first second : Answer α} (hdiffer : differ first second) : Like differ first second
  | waitedInsert (verdict : Verdict Unit) {first second : List (Beat Unit (List (Answer α)))}
      (htraces : List.Forall₂ (Beat.Agree (List.Forall₂ (Like differ))) first second) :
      Like differ (.waitedInsert verdict first) (.waitedInsert verdict second)
  | waitedRemove (verdict : Verdict α) {first second : List (Beat α (List (Answer α)))}
      (htraces : List.Forall₂ (Beat.Agree (List.Forall₂ (Like differ))) first second) :
      Like differ (.waitedRemove verdict first) (.waitedRemove verdict second)

structure Outcome.Like {α β γ : Type} (rings : Ring α → Ring α → Prop) (results : β → γ → Prop)
    (first : Outcome α β) (second : Outcome α γ) : Prop where
  result : results first.result second.result
  ring : rings first.ring second.ring
  events : first.events = second.events

/-! ## Waits in step -/

/-- What keeps two runs of the loop in step: whatever world they are in, related worlds
show the same to the loop and become related ones. -/
structure InStep {β ρ σ ι : Type} (clock : Clock σ ι ρ) (attempt other : σ → Except Fault β × σ)
    (worlds : σ → σ → Prop) (reports : ρ → ρ → Prop) : Prop where
  now : ∀ {first second}, worlds first second →
    (clock.now first).1 = (clock.now second).1 ∧ worlds (clock.now first).2 (clock.now second).2
  elapsed : ∀ {first second} (start : ι), worlds first second →
    (clock.elapsed start first).1 = (clock.elapsed start second).1 ∧
      worlds (clock.elapsed start first).2 (clock.elapsed start second).2
  sleep : ∀ {first second} (length : Duration), worlds first second →
    reports (clock.sleep length first).1 (clock.sleep length second).1 ∧
      worlds (clock.sleep length first).2 (clock.sleep length second).2
  attempt : ∀ {first second}, worlds first second →
    (attempt first).1 = (other second).1 ∧ worlds (attempt first).2 (other second).2

structure Wait.Agree {β ρ σ : Type} (worlds : σ → σ → Prop) (reports : ρ → ρ → Prop)
    (first second : Wait β ρ σ) : Prop where
  verdict : first.verdict = second.verdict
  trace : List.Forall₂ (Beat.Agree reports) first.trace second.trace
  world : worlds first.world second.world

section

variable {β ρ σ ι : Type} {clock : Clock σ ι ρ} {attempt other : σ → Except Fault β × σ}
  {worlds : σ → σ → Prop} {reports : ρ → ρ → Prop}

theorem Wait.Agree.after {first second : Wait β ρ σ} (hagree : first.Agree worlds reports second)
    {beats others : List (Beat β ρ)} (hbeats : List.Forall₂ (Beat.Agree reports) beats others) :
    (first.after beats).Agree worlds reports (second.after others) :=
  ⟨hagree.verdict, List.rel_append hbeats hagree.trace, hagree.world⟩

theorem opening_agree (outcome : Except Fault β) :
    List.Forall₂ (Beat.Agree reports) [.now, .attempt outcome] [.now, .attempt outcome] :=
  .cons .now (.cons (.attempt outcome) .nil)

theorem round_agree (reading length : Duration) {first second : ρ}
    (hreports : reports first second) (outcome : Except Fault β) :
    List.Forall₂ (Beat.Agree reports) [.elapsed reading, .sleep length first, .attempt outcome]
      [.elapsed reading, .sleep length second, .attempt outcome] :=
  .cons (.elapsed reading) (.cons (.sleep length hreports) (.cons (.attempt outcome) .nil))

theorem retry_agree (hstep : InStep clock attempt other worlds reports) (pacing : Pacing)
    (timeout : Duration) (retryOn : Fault) (start : ι) (rounds : Nat) (delay : Duration)
    {first second : σ} (hworlds : worlds first second) :
    (Wait.retry clock pacing timeout retryOn attempt start rounds delay first).Agree worlds reports
      (Wait.retry clock pacing timeout retryOn other start rounds delay second) := by
  induction rounds generalizing delay first second with
  | zero => exact ⟨rfl, .nil, hworlds⟩
  | succ rounds ih =>
      obtain ⟨hreading, hread⟩ := hstep.elapsed start hworlds
      rw [Wait.retry, Wait.retry]
      simp only [hreading]
      split
      · exact ⟨rfl, .cons (.elapsed _) .nil, hread⟩
      · obtain ⟨hreports, hslept⟩ := hstep.sleep
          (min delay (timeout - (clock.elapsed start second).1)) hread
        obtain ⟨houtcome, htried⟩ := hstep.attempt hslept
        simp only [houtcome]
        split
        · exact (ih (pacing.nextDelay delay) htried).after (round_agree _ _ hreports _)
        · exact ⟨rfl, round_agree _ _ hreports _, htried⟩

theorem run_agree (hstep : InStep clock attempt other worlds reports) (pacing : Pacing)
    (timeout : Duration) (retryOn : Fault) (rounds : Nat) {first second : σ}
    (hworlds : worlds first second) :
    (Wait.run clock pacing timeout retryOn attempt rounds first).Agree worlds reports
      (Wait.run clock pacing timeout retryOn other rounds second) := by
  obtain ⟨hstart, hbegun⟩ := hstep.now hworlds
  obtain ⟨houtcome, htried⟩ := hstep.attempt hbegun
  rw [Wait.run, Wait.run]
  simp only [hstart, houtcome]
  split
  · split
    · exact ⟨rfl, opening_agree _, htried⟩
    · exact (retry_agree hstep pacing timeout retryOn _ rounds pacing.interval htried).after
        (opening_agree _)
  · exact ⟨rfl, opening_agree _, htried⟩

end

/-! ## Likenesses -/

/-- A respect in which rings are alike, with what alike rings answer. It goes through a wait
because that looks only at the pacing and the mode, and records its failure on both rings. -/
structure Likeness (α : Type) where
  rings : Ring α → Ring α → Prop
  answers : Answer α → Answer α → Prop
  storage_eq : ∀ {first second}, rings first second → first.storage = second.storage
  overwrite_eq : ∀ {first second}, rings first second → first.overwrite = second.overwrite
  pacing_eq : ∀ {first second}, rings first second → first.pacing = second.pacing
  fail : ∀ {first second} (operation : Operation) (fault : Fault) (line : UInt32),
    rings first second →
      rings { first with latch := .ofFailure operation fault line }
        { second with latch := .ofFailure operation fault line }
  same : ∀ {answer}, answer.isPlain = true → answers answer answer
  waitedInsert : ∀ (verdict : Verdict Unit) {first second : List (Beat Unit (List (Answer α)))},
    List.Forall₂ (Beat.Agree (List.Forall₂ answers)) first second →
      answers (.waitedInsert verdict first) (.waitedInsert verdict second)
  waitedRemove : ∀ (verdict : Verdict α) {first second : List (Beat α (List (Answer α)))},
    List.Forall₂ (Beat.Agree (List.Forall₂ answers)) first second →
      answers (.waitedRemove verdict first) (.waitedRemove verdict second)

namespace Likeness

variable {α β γ δ ε κ ι : Type} (like : Likeness α)

def Keeps (results : β → γ → Prop) (action : Ring α → Outcome α β)
    (other : Ring α → Outcome α γ) : Prop :=
  ∀ ⦃first second : Ring α⦄, like.rings first second →
    (action first).Like like.rings results (other second)

structure Kept : Prop where
  offer : ∀ item mode, like.Keeps Eq (Ring.offer · item mode) (Ring.offer · item mode)
  take : like.Keeps Eq Ring.take Ring.take
  integrity : like.Keeps Eq Ring.integrity Ring.integrity
  itemAt : ∀ {first second} offset, like.rings first second →
    first.itemAt offset = second.itemAt offset
  answer : ∀ {first second} (question : Query), like.rings first second →
    like.answers (question.answer first) (question.answer second)
  forceIndices : ∀ producer consumer,
    like.Keeps Eq (Ring.forceIndices · producer consumer) (Ring.forceIndices · producer consumer)

structure Controlled : Prop where
  setUp : ∀ storage line, like.Keeps Eq (Ring.setUp · storage line) (Ring.setUp · storage line)
  setPacing : ∀ pacing line,
    like.Keeps Eq (Ring.setPacing · pacing line) (Ring.setPacing · pacing line)
  setOverwrite : ∀ enabled,
    like.Keeps Eq (Ring.setOverwrite · enabled) (Ring.setOverwrite · enabled)
  resetCounters : like.Keeps Eq Ring.resetCounters Ring.resetCounters
  clearFailure : like.Keeps Eq Ring.clearFailure Ring.clearFailure

variable {like}

theorem tracked {first second : Outcome α (Except Fault β)}
    (hlike : first.Like like.rings Eq second) (operation : Operation) (line : UInt32) :
    (first.tracked operation line).Like like.rings Eq (second.tracked operation line) := by
  obtain ⟨result, ring, events⟩ := first
  obtain ⟨other, next, later⟩ := second
  obtain ⟨hresult, hring, hevents⟩ := hlike
  have hresult : result = other := hresult
  have hevents : events = later := hevents
  subst hresult hevents
  cases result with
  | error fault => exact ⟨rfl, like.fail operation fault line hring, rfl⟩
  | ok result => exact ⟨rfl, hring, rfl⟩

theorem mapped {first second : Outcome α β} (hlike : first.Like like.rings Eq second) (f : β → γ) :
    (first.map f).Like like.rings Eq (second.map f) :=
  ⟨congrArg f hlike.result, hlike.ring, hlike.events⟩

theorem answered {first second : Outcome α β} (hlike : first.Like like.rings Eq second)
    (f : β → Answer α) (hplain : ∀ result, (f result).isPlain = true) :
    (first.map f).Like like.rings like.answers (second.map f) := by
  refine ⟨?_, hlike.ring, hlike.events⟩
  show like.answers (f first.result) (f second.result)
  rw [hlike.result]
  exact like.same (hplain _)

theorem controlled_of
    (hrebind : ∀ {first second} storage, like.rings first second →
      like.rings (first.rebind storage) (second.rebind storage))
    (hpacing : ∀ {first second} pacing, like.rings first second →
      like.rings { first with pacing := pacing } { second with pacing := pacing })
    (hoverwrite : ∀ {first second} enabled, like.rings first second →
      like.rings { first with overwrite := enabled } { second with overwrite := enabled })
    (hreset : ∀ {first second}, like.rings first second →
      like.rings { first with recorder := first.recorder.reset }
        { second with recorder := second.recorder.reset })
    (hclear : ∀ {first second}, like.rings first second →
      like.rings { first with latch := .clear } { second with latch := .clear }) :
    like.Controlled where
  setUp storage line first second hrings := by
    unfold Ring.setUp
    cases storage with
    | absent | noCells => exact ⟨rfl, like.fail .setUp _ line (hrebind _ hrings), rfl⟩
    | lent slots => exact ⟨rfl, hrebind _ hrings, rfl⟩
  setPacing pacing line first second hrings := by
    unfold Ring.setPacing
    split
    · exact ⟨rfl, hpacing pacing hrings, rfl⟩
    · exact ⟨rfl, like.fail .setPacing _ line hrings, rfl⟩
  setOverwrite enabled _ _ hrings := ⟨rfl, hoverwrite enabled hrings, rfl⟩
  resetCounters _ _ hrings := ⟨rfl, hreset hrings, rfl⟩
  clearFailure _ _ hrings := ⟨rfl, hclear hrings, rfl⟩

/-! ## Bulk attempts -/

theorem keeps_offerEach (hkept : like.Kept) (mode : Bool) (items : List α) :
    like.Keeps Eq (Ring.offerEach mode items) (Ring.offerEach mode items) := by
  induction items with
  | nil => exact fun _ _ hrings => ⟨rfl, hrings, rfl⟩
  | cons item later ih =>
      intro first second hrings
      have hoffer : (first.offer item mode).Like like.rings Eq (second.offer item mode) :=
        hkept.offer item mode hrings
      obtain ⟨hresult, hnext, hevents⟩ := hoffer
      rw [Ring.offerEach, Ring.offerEach]
      generalize first.offer item mode = outcome at hresult hnext hevents
      generalize second.offer item mode = other at hresult hnext hevents
      obtain ⟨result, ring, events⟩ := outcome
      obtain ⟨_, next, _⟩ := other
      subst hresult hevents
      cases result with
      | error fault => exact ⟨rfl, hnext, rfl⟩
      | ok _ =>
          obtain ⟨hlater, hfinal, hrest⟩ := ih hnext
          exact ⟨congrArg (fun ended => (ended.1 + 1, ended.2)) hlater, hfinal,
            congrArg (events ++ ·) hrest⟩

theorem keeps_takeEach (hkept : like.Kept) (limit : Nat) :
    like.Keeps Eq (Ring.takeEach limit) (Ring.takeEach limit) := by
  induction limit with
  | zero => exact fun _ _ hrings => ⟨rfl, hrings, rfl⟩
  | succ limit ih =>
      intro first second hrings
      obtain ⟨hresult, hnext, hevents⟩ := hkept.take hrings
      rw [Ring.takeEach, Ring.takeEach]
      generalize first.take = outcome at hresult hnext hevents
      generalize second.take = other at hresult hnext hevents
      obtain ⟨result, ring, events⟩ := outcome
      obtain ⟨_, next, _⟩ := other
      subst hresult hevents
      cases result with
      | error fault => exact ⟨rfl, hnext, rfl⟩
      | ok item =>
          obtain ⟨hlater, hfinal, hrest⟩ := ih hnext
          exact ⟨congrArg (fun ended => (item :: ended.1, ended.2)) hlater, hfinal,
            congrArg (events ++ ·) hrest⟩

theorem keeps_offerAll (hkept : like.Kept) (items : List α) :
    like.Keeps Eq (Ring.offerAll · items) (Ring.offerAll · items) := by
  intro first second hrings
  obtain ⟨hended, hfinal, hevents⟩ := keeps_offerEach hkept second.overwrite items hrings
  simp only [Ring.offerAll, like.storage_eq hrings, like.overwrite_eq hrings]
  cases second.storage.slots? with
  | error fault => exact ⟨rfl, hrings, rfl⟩
  | ok slots =>
      dsimp only
      split
      · exact ⟨rfl, hrings, rfl⟩
      · refine ⟨?_, hfinal, hevents⟩
        simp only [Outcome.map, hended]

theorem keeps_takeAll (hkept : like.Kept) (limit : Nat) :
    like.Keeps Eq (Ring.takeAll · limit) (Ring.takeAll · limit) := by
  intro first second hrings
  obtain ⟨hended, hfinal, hevents⟩ := keeps_takeEach hkept limit hrings
  simp only [Ring.takeAll, like.storage_eq hrings]
  cases second.storage.slots? with
  | error fault => exact ⟨rfl, hrings, rfl⟩
  | ok slots =>
      dsimp only
      split
      · exact ⟨rfl, hrings, rfl⟩
      · refine ⟨?_, hfinal, hevents⟩
        simp only [Outcome.map, hended]

/-! ## Calls without waits -/

section

variable (hkept : like.Kept)

include hkept

theorem keeps_insert (item : α) (line : UInt32) :
    like.Keeps Eq (Ring.insert · item line) (Ring.insert · item line) := by
  intro first second hrings
  have hoffer : (first.offer item first.overwrite).Like like.rings Eq
      (second.offer item first.overwrite) := hkept.offer item first.overwrite hrings
  show ((first.offer item first.overwrite).tracked .insert line).Like like.rings Eq
    ((second.offer item second.overwrite).tracked .insert line)
  rw [← like.overwrite_eq hrings]
  exact tracked hoffer .insert line

theorem keeps_remove (line : UInt32) :
    like.Keeps Eq (Ring.remove · line) (Ring.remove · line) :=
  fun _ _ hrings => tracked (hkept.take hrings) .remove line

theorem keeps_peek (offset : UInt64) (line : UInt32) :
    like.Keeps Eq (Ring.peek · offset line) (Ring.peek · offset line) := by
  intro first second hrings
  have hquery : (Outcome.query first (first.itemAt offset)).Like like.rings Eq
      (Outcome.query second (second.itemAt offset)) := ⟨hkept.itemAt offset hrings, hrings, rfl⟩
  exact tracked hquery .peek line

theorem keeps_check (line : UInt32) : like.Keeps Eq (Ring.check · line) (Ring.check · line) :=
  fun _ _ hrings => tracked (hkept.integrity hrings) .check line

theorem keeps_insertMany (items : List α) (line : UInt32) :
    like.Keeps Eq (Ring.insertMany · items line) (Ring.insertMany · items line) :=
  fun _ _ hrings => tracked (keeps_offerAll hkept items hrings) .insertMany line

theorem keeps_removeMany (buffer : List α) (line : UInt32) :
    like.Keeps Eq (Ring.removeMany · buffer line) (Ring.removeMany · buffer line) := by
  intro first second hrings
  have htaken := tracked (keeps_takeAll hkept buffer.length hrings) .removeMany line
  dsimp only
  rw [Ring.removeMany_eq_takeAll, Ring.removeMany_eq_takeAll]
  exact mapped htaken _

end

/-! ## Waiting calls -/

/-- Two worlds of waiting calls on alike rings, where others do alike things at the same times. -/
structure Worlds (like : Likeness α) (first second : Waiting α (Surroundings α κ)) : Prop where
  ring : like.rings first.ring second.ring
  history : first.history = second.history
  clock : first.clock.clock = second.clock.clock
  peers : List.Forall₂ (like.Keeps (List.Forall₂ like.answers)) first.clock.interludes
    second.clock.interludes

theorem perform_worlds {action : Ring α → Outcome α β} {other : Ring α → Outcome α γ}
    {results : β → γ → Prop} (hkeeps : like.Keeps results action other)
    {first second : Waiting α (Surroundings α κ)} (hworlds : like.Worlds first second) :
    results (first.perform action).1 (second.perform other).1 ∧
      like.Worlds (first.perform action).2 (second.perform other).2 := by
  obtain ⟨hring, hhistory, hclock, hpeers⟩ := hworlds
  obtain ⟨hresult, hnext, hevents⟩ := hkeeps hring
  refine ⟨hresult, hnext, ?_, hclock, hpeers⟩
  show (action first.ring).events.reverse ++ first.history =
    (other second.ring).events.reverse ++ second.history
  rw [hevents, hhistory]

theorem inStep_clockwork (timepiece : Clock κ ι Unit)
    {attempt other : Ring α → Outcome α (Except Fault β)} (hkeeps : like.Keeps Eq attempt other) :
    InStep (Surroundings.clockwork timepiece) (Waiting.perform attempt) (Waiting.perform other)
      like.Worlds (List.Forall₂ like.answers) where
  now := by
    rintro ⟨ring, history, clock, _⟩ ⟨_, _, _, _⟩ ⟨hring, rfl, rfl, hpeers⟩
    exact ⟨rfl, hring, rfl, rfl, hpeers⟩
  elapsed := by
    rintro ⟨ring, history, clock, _⟩ ⟨_, _, _, _⟩ start ⟨hring, rfl, rfl, hpeers⟩
    exact ⟨rfl, hring, rfl, rfl, hpeers⟩
  sleep := by
    rintro ⟨ring, history, clock, interludes⟩ ⟨_, _, _, others⟩ length ⟨hring, rfl, rfl, hpeers⟩
    cases hpeers with
    | nil => exact ⟨.nil, hring, rfl, rfl, .nil⟩
    | cons hpeer hlater => exact perform_worlds hpeer ⟨hring, rfl, rfl, hlater⟩
  attempt := perform_worlds hkeeps

theorem concludeWait_agree {ρ : Type} {reports : ρ → ρ → Prop}
    {first second : Wait β ρ (Waiting α (Surroundings α κ))}
    (hagree : first.Agree like.Worlds reports second) (operation : Operation)
    (waitingOn : Fault) (line : UInt32) (timeout : Duration) :
    (Ring.concludeWait operation waitingOn line timeout first).Agree like.Worlds reports
      (Ring.concludeWait operation waitingOn line timeout second) := by
  obtain ⟨verdict, trace, ring, history, clock⟩ := first
  obtain ⟨_, others, next, _, other⟩ := second
  obtain ⟨hverdict, htrace, hring, hhistory, hclock, hpeers⟩ := hagree
  subst hverdict hhistory
  obtain (fault | result) | _ | _ := verdict
  · exact ⟨rfl, htrace, like.fail operation fault line hring, rfl, hclock, hpeers⟩
  · exact ⟨rfl, htrace, hring, rfl, hclock, hpeers⟩
  · exact ⟨rfl, htrace, like.fail operation .timedOut line hring, rfl, hclock, hpeers⟩
  · exact ⟨rfl, htrace, hring, rfl, hclock, hpeers⟩

theorem toOutcome_like {answer : Verdict β → List (Beat β (List (Answer α))) → Answer α}
    (hanswer : ∀ verdict {traces others},
      List.Forall₂ (Beat.Agree (List.Forall₂ like.answers)) traces others →
        like.answers (answer verdict traces) (answer verdict others))
    {first second : Wait β (List (Answer α)) (Waiting α (Surroundings α κ))}
    (hagree : first.Agree like.Worlds (List.Forall₂ like.answers) second) :
    (first.toOutcome answer).Like like.rings like.answers (second.toOutcome answer) := by
  obtain ⟨hverdict, htrace, hring, hhistory, hclock, hpeers⟩ := hagree
  refine ⟨?_, hring, congrArg List.reverse hhistory⟩
  show like.answers (answer first.verdict first.trace) (answer second.verdict second.trace)
  rw [hverdict]
  exact hanswer second.verdict htrace

section

variable {timeout : Duration} {clock : VirtualClock} {interludes others : List (Interlude α)}
  {line : UInt32}

theorem keeps_waitToInsert
    (hpeers : List.Forall₂ (like.Keeps (List.Forall₂ like.answers)) interludes others) {item : α}
    (hoffer : ∀ mode, like.Keeps Eq (Ring.offer · item mode) (Ring.offer · item mode)) :
    like.Keeps like.answers (Ring.waitToInsert item timeout ⟨clock, interludes⟩ line)
      (Ring.waitToInsert item timeout ⟨clock, others⟩ line) := by
  intro first second hrings
  have hworlds : like.Worlds ⟨first, [], clock, interludes⟩ ⟨second, [], clock, others⟩ :=
    ⟨hrings, rfl, rfl, hpeers⟩
  unfold Ring.waitToInsert Ring.insertWithin Surroundings.rounds
  rw [like.pacing_eq hrings, like.overwrite_eq hrings, hpeers.length_eq]
  exact toOutcome_like like.waitedInsert (concludeWait_agree
    (run_agree (inStep_clockwork VirtualClock.timepiece (hoffer second.overwrite)) second.pacing
      timeout .full _ hworlds) .insertWithin .full line timeout)

theorem keeps_waitToRemove
    (hpeers : List.Forall₂ (like.Keeps (List.Forall₂ like.answers)) interludes others)
    (htake : like.Keeps Eq Ring.take Ring.take) :
    like.Keeps like.answers (Ring.waitToRemove timeout ⟨clock, interludes⟩ line)
      (Ring.waitToRemove timeout ⟨clock, others⟩ line) := by
  intro first second hrings
  have hworlds : like.Worlds ⟨first, [], clock, interludes⟩ ⟨second, [], clock, others⟩ :=
    ⟨hrings, rfl, rfl, hpeers⟩
  unfold Ring.waitToRemove Ring.removeWithin Surroundings.rounds
  rw [like.pacing_eq hrings, hpeers.length_eq]
  exact toOutcome_like like.waitedRemove (concludeWait_agree
    (run_agree (inStep_clockwork VirtualClock.timepiece htake) second.pacing timeout .empty _
      hworlds) .removeWithin .empty line timeout)

end

/-! ## Calls -/

open SharedCall

theorem keeps_runAll {calls others : List (SharedCall α)}
    (hcalls : List.Forall₂ (fun call other => like.Keeps like.answers call.run other.run) calls
      others) :
    like.Keeps (List.Forall₂ like.answers) (runAll calls) (runAll others) := by
  induction hcalls with
  | nil => exact fun _ _ hrings => ⟨.nil, hrings, rfl⟩
  | @cons call other later rest hcall _ ih =>
      intro first second hrings
      obtain ⟨hanswer, hnext, hevents⟩ := hcall hrings
      obtain ⟨hanswers, hfinal, hrest⟩ := ih hnext
      refine ⟨.cons hanswer hanswers, hfinal, ?_⟩
      show (call.run first).events ++ (runAll later (call.run first).ring).events =
        (other.run second).events ++ (runAll rest (other.run second).ring).events
      rw [hevents, hrest]

theorem keeps_runInterludes {scripts others : List (List (SharedCall α))}
    (hpeers : List.Forall₂
      (List.Forall₂ fun call other => like.Keeps like.answers call.run other.run) scripts others) :
    List.Forall₂ (like.Keeps (List.Forall₂ like.answers)) (runInterludes scripts)
      (runInterludes others) := by
  induction hpeers with
  | nil => exact .nil
  | cons hcalls _ ih => exact .cons (keeps_runAll hcalls) ih

/-- A likeness that attempts keep is kept by every call, whatever others do meanwhile. -/
theorem keeps_run (hkept : like.Kept) (call : SharedCall α) :
    like.Keeps like.answers call.run call.run := by
  induction call using induct with
  | hstep call ih =>
      have hothers := keeps_runInterludes (List.forall₂_same.mpr fun calls hcalls =>
        List.forall₂_same.mpr (ih calls hcalls))
      intro first second hrings
      cases call with
      | insert item line =>
          exact answered (keeps_insert hkept item line hrings) .unit fun _ => rfl
      | remove line => exact answered (keeps_remove hkept line hrings) .item fun _ => rfl
      | peek offset line =>
          exact answered (keeps_peek hkept offset line hrings) .item fun _ => rfl
      | insertMany items line =>
          exact answered (keeps_insertMany hkept items line hrings) .count fun _ => rfl
      | insertManyCount items line =>
          exact answered (mapped (keeps_insertMany hkept items line hrings) Ring.countOf)
            .plainCount fun _ => rfl
      | removeMany buffer line =>
          exact answered (keeps_removeMany hkept buffer line hrings)
            (fun moved => .buffer moved.1 moved.2) fun _ => rfl
      | removeManyCount buffer line =>
          exact answered (keeps_removeMany hkept buffer line hrings)
            (fun moved => .plainBuffer (Ring.countOf moved.1) moved.2) fun _ => rfl
      | insertWithin item timeout clock scripts line =>
          exact keeps_waitToInsert hothers (hkept.offer item) hrings
      | removeWithin timeout clock scripts line =>
          exact keeps_waitToRemove hothers hkept.take hrings
      | check line => exact answered (keeps_check hkept line hrings) .unit fun _ => rfl
      | isSound line =>
          exact answered (mapped (keeps_check hkept line hrings) Except.isOk) .flag fun _ => rfl
      | query question => exact ⟨hkept.answer question hrings, hrings, rfl⟩
      | forceIndices producer consumer =>
          exact answered (hkept.forceIndices producer consumer hrings) (fun _ => .done)
            fun _ => rfl

end Likeness

end SpscRing
