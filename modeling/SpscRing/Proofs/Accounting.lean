import SpscRing.Proofs.Tried
/-!
# What the counters account for

The counters and the log account for the attempts that the answers tell of: nothing is counted
that was not tried, and nothing twice.
-/

namespace SpscRing

/-! ## Counters by attempts -/

def occupancies {α : Type} (events : List (Event α)) : List UInt64 :=
  events.filterMap fun
    | .accepted _ occupancy => some occupancy
    | _ => none

theorem occupancies_append {α : Type} (earlier later : List (Event α)) :
    occupancies (earlier ++ later) = occupancies earlier ++ occupancies later :=
  List.filterMap_append

def Counters.tally {α : Type} (tried : List (Tried α)) (occupancies : List UInt64) : Counters where
  peak := occupancies.foldl max 0
  inserts := .ofNat (tried.countP Tried.accepts)
  removes := .ofNat (tried.countP Tried.delivers)
  overflows := .ofNat (rejections .full tried)
  underflows := .ofNat (rejections .empty tried)

attribute [ext] Counters

namespace Counters

variable {α : Type} (tried : List (Tried α)) (occupancies : List UInt64)

theorem peak_countInsert (counters : Counters) (occupancy : UInt64) :
    (counters.countInsert occupancy).peak = max counters.peak occupancy := by
  show (if _ then _ else _) = if counters.peak ≤ occupancy then occupancy else counters.peak
  by_cases hlt : counters.peak < occupancy
  · rw [if_pos hlt, if_pos (UInt64.le_of_lt hlt)]
  · rw [if_neg hlt]
    split
    · next hle => exact UInt64.le_antisymm hle (UInt64.not_lt.mp hlt)
    · rfl

theorem tally_accepted (item : α) (occupancy : UInt64) :
    (tally tried occupancies).countInsert occupancy =
      tally (tried ++ [.ok (.accepted item)]) (occupancies ++ [occupancy]) := by
  have hinserts : ((tally tried occupancies).countInsert occupancy).inserts =
      .ofNat (tried.countP Tried.accepts + 1) := (UInt64.ofNat_add _ _).symm
  apply Counters.ext
  case peak =>
    rw [peak_countInsert, tally, tally, List.foldl_append]
    rfl
  case inserts =>
    rw [hinserts, tally, List.countP_append]
    rfl
  all_goals simp [tally, countInsert, rejections, Tried.delivers, failsWith]

theorem tally_delivered (item : α) :
    (tally tried occupancies).countRemove =
      tally (tried ++ [.ok (.delivered item)]) occupancies := by
  simp [tally, countRemove, rejections, Tried.accepts, Tried.delivers, failsWith,
    UInt64.ofNat_add]

theorem tally_full :
    (tally tried occupancies).countOverflow = tally (tried ++ [.error .full]) occupancies := by
  simp [tally, countOverflow, rejections, Tried.accepts, Tried.delivers, failsWith,
    UInt64.ofNat_add]

theorem tally_empty :
    (tally tried occupancies).countUnderflow = tally (tried ++ [.error .empty]) occupancies := by
  simp [tally, countUnderflow, rejections, Tried.accepts, Tried.delivers, failsWith,
    UInt64.ofNat_add]

theorem tally_gaveUp :
    tally tried occupancies = tally (tried ++ [.error .timedOut]) occupancies := by
  simp [tally, rejections, Tried.accepts, Tried.delivers, failsWith]

theorem tally_filter :
    tally (tried.filter Tried.isCounted) occupancies = tally tried occupancies := by
  simp only [tally, Tried.accepts_filter, Tried.delivers_filter, Tried.rejections_filter .full rfl,
    Tried.rejections_filter .empty rfl]

end Counters

namespace Ring

variable {α : Type} {ring next : Ring α} {events : List (Event α)} {tried : List (Tried α)}
  {earlier : List UInt64}

/-- The counters of a ring account for attempts, and for the occupancies after those that
brought an item in. -/
def Tallies (ring : Ring α) (tried : List (Tried α)) (occupancies : List UInt64) : Prop :=
  ring.recorder = .on (.tally tried occupancies)

theorem Tallies.quiet (htallies : ring.Tallies tried earlier)
    (hrecorder : next.recorder = ring.recorder) (hattempts : attempts events = [])
    (hoccupancies : occupancies events = []) :
    next.Tallies (tried ++ attempts events) (earlier ++ occupancies events) := by
  rw [hattempts, hoccupancies, List.append_nil, List.append_nil, Tallies, hrecorder]
  exact htallies

theorem Tallies.count (htallies : ring.Tallies tried earlier) {change : Counters → Counters}
    {later : List (Tried α)} {occupancies : List UInt64}
    (hchange : change (.tally tried earlier) = .tally later occupancies)
    (hrecorder : next.recorder = ring.recorder.record change) : next.Tallies later occupancies := by
  rw [Tallies, hrecorder, htallies, ← hchange]
  rfl

theorem Tallies.offer (htallies : ring.Tallies tried earlier) (item : α) (overwrite : Bool) :
    (ring.offer item overwrite).ring.Tallies
      (tried ++ attempts (ring.offer item overwrite).events)
      (earlier ++ occupancies (ring.offer item overwrite).events) := by
  have hend := offered ring item overwrite
  generalize ring.offer item overwrite = outcome at hend ⊢
  cases hend with
  | inert | corrupted => exact htallies.quiet rfl rfl rfl
  | full =>
      rw [Outcome.fail, show occupancies _ = [] from rfl, List.append_nil]
      exact htallies.count (Counters.tally_full ..) rfl
  | accepted => exact htallies.count (Counters.tally_accepted ..) rfl
  | replaced =>
      refine htallies.count (Counters.tally_accepted ..) ?_
      show ring.release.recorder.record _ = _
      rw [release_eq]

theorem Tallies.take (htallies : ring.Tallies tried earlier) :
    ring.take.ring.Tallies (tried ++ attempts ring.take.events)
      (earlier ++ occupancies ring.take.events) := by
  have hend := taken ring
  generalize ring.take = outcome at hend ⊢
  cases hend with
  | inert | corrupted => exact htallies.quiet rfl rfl rfl
  | empty =>
      rw [Outcome.fail, show occupancies _ = [] from rfl, List.append_nil]
      exact htallies.count (Counters.tally_empty ..) rfl
  | delivered =>
      rw [show occupancies _ = [] from rfl, List.append_nil]
      refine htallies.count (Counters.tally_delivered ..) ?_
      show ring.release.recorder.record _ = _
      rw [release_eq]

/-- Every move counts the attempt that it is, and nothing else. -/
theorem Move.tallies {stray : Bool} (hmove : Move stray ring events next)
    (htallies : ring.Tallies tried earlier) :
    next.Tallies (tried ++ attempts events) (earlier ++ occupancies events) := by
  cases hmove with
  | offer _ item => exact htallies.offer item ring.overwrite
  | take => exact htallies.take
  | check =>
      have hend := checked ring
      generalize ring.integrity = outcome at hend ⊢
      cases hend with
      | inert | corrupted | sound => exact htallies.quiet rfl rfl rfl
  | fail | force => exact htallies.quiet rfl rfl rfl
  | giveUp =>
      rw [show occupancies _ = [] from rfl, List.append_nil]
      exact htallies.trans (congrArg Recorder.on (Counters.tally_gaveUp ..))

theorem Course.tallies {stray : Bool} (hcourse : Course (Move stray) ring events next)
    (htallies : ring.Tallies tried earlier) :
    next.Tallies (tried ++ attempts events) (earlier ++ occupancies events) := by
  induction hcourse with
  | rest => exact htallies.quiet rfl rfl rfl
  | step _ hmove ih =>
      rw [attempts_append, occupancies_append, ← List.append_assoc, ← List.append_assoc]
      exact hmove.tallies ih

end Ring

def Call.zeroes {α : Type} : Call α → Bool
  | setUp _ _ | resetCounters => true
  | _ => false

/-! ## Lines by attempts -/

def countLines {α : Type} (message : String) (events : List (Event α)) : Nat :=
  (Build.full.log events).countP (·.message == message)

section

variable {α γ : Type}

theorem countLines_eq {message : String} {told? : Event α → Option γ} {counted : γ → Bool}
    (heach : ∀ event : Event α,
      (event.logLine?.map (·.message == message)).getD false =
        ((told? event).map counted).getD false)
    (events : List (Event α)) :
    countLines message events = (events.filterMap told?).countP counted := by
  rw [countLines, Build.log, Build.written, logLines, List.countP_filterMap,
    List.countP_filterMap]
  exact congrArg (events.countP ·) (funext heach)

theorem countLines_full (events : List (Event α)) :
    countLines "insert rejected, ring full" events = rejections .full (attempts events) := by
  refine countLines_eq (fun event => ?_) events
  cases event with
  | outOfRange access => cases access <;> rfl
  | _ => rfl

theorem countLines_empty (events : List (Event α)) :
    countLines "remove rejected, ring empty" events = rejections .empty (attempts events) := by
  refine countLines_eq (fun event => ?_) events
  cases event with
  | outOfRange access => cases access <;> rfl
  | _ => rfl

theorem countLines_timedOut (events : List (Event α)) :
    countLines "ring operation timed out" events = rejections .timedOut (attempts events) := by
  refine countLines_eq (fun event => ?_) events
  cases event with
  | outOfRange access => cases access <;> rfl
  | _ => rfl

theorem countLines_evicted (events : List (Event α)) :
    countLines "evicted oldest item" events = (events.filterMap Event.evicted?).length := by
  rw [← List.countP_true]
  refine countLines_eq (fun event => ?_) events
  cases event with
  | outOfRange access => cases access <;> rfl
  | _ => rfl

end

/-! ## What events tell of a ring -/

/-- A change with events that tell what happened: an item that came in is the last of those
held after it, the occupancy with it is theirs, and an item was dropped for it just when the
event says so. -/
structure Ring.Recounted {α : Type} (ring : Ring α) (events : List (Event α)) (next : Ring α) :
    Prop where
  change : Change true ring events next
  accepted : ∀ item occupancy, .accepted item occupancy ∈ events →
    next.occupancy = occupancy ∧
      ring.contents ++ [item] = events.filterMap Event.evicted? ++ next.contents
  otherwise : arrivals events = [] → events.filterMap Event.evicted? = []

namespace Ring

variable {α : Type}

theorem Recounted.quiet {ring next : Ring α} {events : List (Event α)}
    (hchange : Change true ring events next) (harrivals : arrivals events = [])
    (hevicted : events.filterMap Event.evicted? = []) : Recounted ring events next where
  change := hchange
  accepted item occupancy hmem := by
    have hin : item ∈ arrivals events := List.mem_filterMap.mpr ⟨_, hmem, rfl⟩
    rw [harrivals] at hin
    cases hin
  otherwise _ := hevicted

theorem events_accept {ring : Ring α} {item : α}
    (hrange : (ring.accept item).ring.inRange = true) :
    (ring.accept item).events = [.accepted item (ring.accept item).ring.occupancy] := by
  rw [occupancy_of_inRange hrange, span, lap_accept]
  rfl

theorem recounted_offer (ring : Ring α) (item : α) :
    Recounted ring (ring.offer item ring.overwrite).events
      (ring.offer item ring.overwrite).ring := by
  have hchange : Change true ring _ _ := .move (.offer ring item)
  have hend := offered ring item ring.overwrite
  generalize ring.offer item ring.overwrite = outcome at hchange hend ⊢
  cases hend with
  | inert | corrupted | full => exact .quiet hchange rfl rfl
  | accepted hslots hrange hroom =>
      rw [← toNat_capacity_of_slots hslots] at hroom
      obtain ⟨hafter, hcontents⟩ := contents_accept hrange hroom item
      rw [events_accept hafter] at hchange ⊢
      refine ⟨hchange, ?_, fun hnone => absurd hnone (List.cons_ne_nil item [])⟩
      intro _ _ hmem
      cases List.mem_singleton.mp hmem
      exact ⟨rfl, hcontents.symm⟩
  | replaced hslots hrange hfull hmode hmany =>
      obtain ⟨hafter, hcontents⟩ := contents_replace hslots hrange hfull hmany item
      simp only [Outcome.after, events_accept hafter] at hchange ⊢
      refine ⟨hchange, ?_, fun hnone => absurd hnone (List.cons_ne_nil item [])⟩
      intro _ _ hmem
      obtain hmem | hmem := List.mem_cons.mp hmem
      · cases hmem
      · cases List.mem_singleton.mp hmem
        refine ⟨rfl, ?_⟩
        rw [hcontents, contents_eq_cons hslots hrange (by omega)]
        rfl

theorem Change.recounted {ring next : Ring α} {events : List (Event α)}
    (hchange : Change true ring events next) : Recounted ring events next := by
  cases hchange with
  | move hmove =>
      cases hmove with
      | offer _ item => exact recounted_offer ring item
      | take =>
          have hchange : Change true ring _ _ := .move (.take ring)
          have hend := taken ring
          generalize ring.take = outcome at hchange hend ⊢
          cases hend with
          | inert | corrupted | empty | delivered => exact .quiet hchange rfl rfl
      | check =>
          have hchange : Change true ring _ _ := .move (.check ring)
          have hend := checked ring
          generalize ring.integrity = outcome at hchange hend ⊢
          cases hend with
          | inert | corrupted | sound => exact .quiet hchange rfl rfl
      | fail _ operation fault line =>
          exact .quiet (.move (.fail ring operation fault line)) rfl rfl
      | giveUp _ timeout waitingOn => exact .quiet (.move (.giveUp ring timeout waitingOn)) rfl rfl
      | force hstray _ producer consumer =>
          exact .quiet (.move (.force hstray ring producer consumer)) rfl rfl
  | setUp hstray _ storage line =>
      cases storage with
      | absent | noCells | lent => exact .quiet (.setUp hstray ring _ line) rfl rfl
  | setPacing _ pacing line =>
      have hchange : Change true ring _ _ := .setPacing ring pacing line
      have hend := ring.paced pacing line
      generalize ring.setPacing pacing line = outcome at hchange hend ⊢
      cases hend with
      | installed | refused => exact .quiet hchange rfl rfl
  | setOverwrite _ enabled => exact .quiet (.setOverwrite ring enabled) rfl rfl
  | resetCounters => exact .quiet (.resetCounters ring) rfl rfl
  | clearFailure => exact .quiet (.clearFailure ring) rfl rfl

theorem recorder_setUp (ring : Ring α) (storage : Storage α) (line : UInt32) :
    (ring.setUp storage line).ring.recorder = ring.recorder.reset := by
  cases storage with
  | absent | noCells | lent => rfl

end Ring

namespace Session

open SpscRing.Ring

variable {α : Type} {tried : List (Tried α)} {earlier : List UInt64}

theorem tallies_perform (session : Session α) {call : Call α} (hkeeps : call.zeroes = false)
    (htallies : session.ring.Tallies tried earlier) :
    (session.perform call).2.ring.Tallies
      (tried ++ attempts (session.perform call).1.allEvents)
      (earlier ++ occupancies (session.perform call).1.allEvents) := by
  cases call with
  | shared | split => exact Course.tallies (session.moves_perform rfl (.inl rfl)) htallies
  | setPacing pacing line =>
      show (session.ring.setPacing pacing line).ring.Tallies
        (tried ++ attempts (session.ring.setPacing pacing line).events)
        (earlier ++ occupancies (session.ring.setPacing pacing line).events)
      have hend := session.ring.paced pacing line
      generalize session.ring.setPacing pacing line = outcome at hend ⊢
      cases hend with
      | installed | refused => exact htallies.quiet rfl rfl rfl
  | setOverwrite | clearFailure => exact htallies.quiet rfl rfl rfl
  | setUp | resetCounters => cases hkeeps

theorem tallies_performAll (session : Session α) {calls : List (Call α)}
    (hkeeps : ∀ call ∈ calls, call.zeroes = false)
    (htallies : session.ring.Tallies tried earlier) :
    (session.performAll calls).2.ring.Tallies
      (tried ++ attempts ((session.performAll calls).1.flatMap Step.allEvents))
      (earlier ++ occupancies ((session.performAll calls).1.flatMap Step.allEvents)) := by
  induction calls generalizing session tried earlier with
  | nil => exact htallies.quiet rfl rfl rfl
  | cons call later ih =>
      obtain ⟨hcall, hlater⟩ := List.forall_mem_cons.mp hkeeps
      have hnext := ih (session.perform call).2 hlater (session.tallies_perform hcall htallies)
      rw [List.append_assoc, List.append_assoc, ← attempts_append, ← occupancies_append] at hnext
      exact hnext

theorem recorder_of_zeroes {session : Session α} {call : Call α} {counters : Counters}
    (hrecorder : session.ring.recorder = .on counters) (hzeroes : call.zeroes = true) :
    (session.perform call).2.ring.recorder = .on .zero := by
  have hreset : session.ring.recorder.reset = .on .zero := by
    rw [hrecorder]
    rfl
  cases call with
  | setUp store line =>
      rw [← hreset]
      exact session.ring.recorder_setUp _ line
  | resetCounters => exact hreset
  | shared | setPacing | setOverwrite | clearFailure | split => cases hzeroes

/-- The counters and the log of a run account for its attempts, which its answers tell one by
one, whatever the state of the ring. From zero on they count the items that came in and went out
and the attempts that were rejected, modulo the size of a word, and the peak is the highest
occupancy right after an item came in. The log has a line for each rejection, for each wait
that gave up, and for each item dropped; a drop is no attempt of its own. -/
theorem attempts_are_accounted (session : Session α) (calls : List (Call α))
    (hzero : session.ring.recorder = .on .zero) (hkeeps : ∀ call ∈ calls, call.zeroes = false) :
    let run := session.performAll calls
    let explicit := session.performAll (calls.map Call.explicit)
    let events := run.1.flatMap Step.allEvents
    let tried := (Tried.reading α).steps (calls.map Call.explicit) explicit.1
    List.Forall₂ (Step.Like (Reply.Like (Answer.Like Answer.Brief) Eq) Eq) run.1 explicit.1 ∧
      run.2.ring.counters = .tally tried (occupancies events) ∧
      Course Recounted session.ring events run.2.ring ∧
      countLines "insert rejected, ring full" events = rejections .full tried ∧
      countLines "remove rejected, ring empty" events = rejections .empty tried ∧
      countLines "ring operation timed out" events = rejections .timedOut tried ∧
      countLines "evicted oldest item" events = (events.filterMap Event.evicted?).length ∧
      ∀ call : Call α, call.zeroes = true → (run.2.perform call).2.ring.recorder = .on .zero := by
  intro run explicit events tried
  obtain ⟨hanswers, _⟩ := session.performAll_explicit calls
  have htried : attempts events = tried.filter Tried.isCounted := by
    have hledger := Ledger.holds_performAll kept_triedLedger calls session
    rw [show events = _ from allEvents_eq_of_like hanswers]
    exact hledger
  have hstart : session.ring.Tallies ([] : List (Tried α)) [] := hzero
  have htallies : run.2.ring.Tallies (attempts events) (occupancies events) :=
    session.tallies_performAll hkeeps hstart
  have hrejections : ∀ fault, Tried.isCounted (.error fault : Tried α) = true →
      rejections fault (attempts events) = rejections fault tried := by
    intro fault hfault
    rw [htried, Tried.rejections_filter fault hfault]
  refine ⟨hanswers, ?counters, ?course, ?full, ?empty, ?timedOut, countLines_evicted events,
    fun call => recorder_of_zeroes htallies⟩
  case counters =>
    rw [Ring.counters, htallies, htried, Counters.tally_filter]
    rfl
  case course =>
    exact (session.course_performAll calls fun _ _ => .inl rfl).mono fun _ _ _ => Change.recounted
  case full => rw [countLines_full, hrejections .full rfl]
  case empty => rw [countLines_empty, hrejections .empty rfl]
  case timedOut => rw [countLines_timedOut, hrejections .timedOut rfl]

theorem attempts_are_accounted_brimful :
    let session : Session Nat := ⟨.brimful, [], none⟩
    let calls : List (Call Nat) :=
      [.shared (.insertManyCount [7, 8] 3), .setOverwrite true, .shared (.insert 9 4),
        .setOverwrite false,
        .shared (.insertWithin 6 (.ofMillis 3) (.exact .zero) [[], [.remove 4, .remove 6]] 9)]
    let run := session.performAll calls
    let events := run.1.flatMap Step.allEvents
    let tried := (Tried.reading Nat).steps (calls.map Call.explicit)
      (session.performAll (calls.map Call.explicit)).1
    session.ring.recorder = .on .zero ∧ (∀ call ∈ calls, call.zeroes = false) ∧
      tried =
        [.error .full, .ok (.accepted 9), .error .full, .error .full, .ok (.delivered 9),
          .error .empty, .ok (.accepted 6)] ∧
      run.2.ring.counters = ⟨1, 2, 1, 3, 1⟩ ∧
      countLines "insert rejected, ring full" events = 3 ∧
      countLines "evicted oldest item" events = 1 := by
  intro session calls run events tried
  have hkeeps : ∀ call ∈ calls, call.zeroes = false := by decide
  obtain ⟨_, hcounters, _, hfull, _, _, hevicted, _⟩ :=
    session.attempts_are_accounted calls rfl hkeeps
  exact ⟨rfl, hkeeps, rfl, hcounters.trans rfl, hfull.trans rfl, hevicted.trans rfl⟩

end Session

end SpscRing
