import SpscRing.Proofs.Atomicity
/-!
# Dead rings

A ring without slots, or with indices that do not belong to its slots, is dead: every request
to it fails, and nothing but setting it up afresh, or a stray write to the indices, brings it
back. Set up afresh, it is like any other ring over the same memory.
-/

namespace SpscRing

/-- There are no slots, or the indices do not belong to them. -/
inductive Ring.Dead {α : Type} (ring : Ring α) : Prop where
  | absent (hstorage : ring.storage = .absent)
  | noCells (hstorage : ring.storage = .noCells)
  | corrupted {slots : Slots α} (hstorage : ring.storage = .lent slots)
      (hstray : ring.lap ≤ ring.producer ∨ ring.lap ≤ ring.consumer ∨ ring.capacity ≤ ring.span)

/-- What a dead ring fails a request with. A bulk request with nothing to move is told so
before anyone looks at the indices. -/
def Storage.deadFault {α : Type} (isVoid : Bool) : Storage α → Fault
  | absent => .noStorage
  | noCells => .emptyStorage
  | lent _ => if isVoid then .noItems else .corrupted

/-- What a call on a dead ring answers, as far as that is the same for all of its settings
and diagnostics. A waiting call tries once, and neither looks at the time passed nor sleeps. -/
def SharedCall.deadAnswer? {α : Type} (storage : Storage α) : SharedCall α → Option (Answer α)
  | insert _ _ | check _ => some (.unit (.error (storage.deadFault false)))
  | remove _ | peek _ _ => some (.item (.error (storage.deadFault false)))
  | insertMany items _ => some (.count (.error (storage.deadFault items.isEmpty)))
  | insertManyCount _ _ => some (.plainCount 0)
  | removeMany buffer _ => some (.buffer (.error (storage.deadFault buffer.isEmpty)) buffer)
  | removeManyCount buffer _ => some (.plainBuffer 0 buffer)
  | insertWithin _ _ _ _ _ =>
    let failed := .error (storage.deadFault false)
    some (.waitedInsert (.settled failed) [.now, .attempt failed])
  | removeWithin _ _ _ _ =>
    let failed := .error (storage.deadFault false)
    some (.waitedRemove (.settled failed) [.now, .attempt failed])
  | isSound _ => some (.flag false)
  | query .capacity => some (.number storage.capacity)
  | query .occupancy | query .freeSpace => some (.number 0)
  | query .isEmpty | query .isFull => some (.flag true)
  | query _ | forceIndices _ _ => none

/-! ## What calls on a dead ring answer -/

namespace Ring

variable {α β : Type} {ring : Ring α}

/-- A ring is dead just when its indices are out of range, as they are without slots. -/
theorem dead_iff : ring.Dead ↔ ring.inRange = false := by
  constructor
  · intro hdead
    cases hdead with
    | corrupted _ hstray => exact inRange_eq_false_iff.mpr hstray
    | absent hstorage | noCells hstorage =>
        by_contra hrange
        obtain ⟨slots, hslots⟩ := exists_slots_of_inRange (Bool.of_not_eq_false hrange)
        rw [hstorage] at hslots
        cases hslots
  · intro hrange
    cases hstorage : ring.storage with
    | absent => exact .absent hstorage
    | noCells => exact .noCells hstorage
    | lent slots => exact .corrupted hstorage (inRange_eq_false_iff.mp hrange)

section

variable (hdead : ring.Dead)

include hdead

theorem obstacle?_of_dead (request : Request) :
    ring.obstacle? request = some (ring.storage.deadFault request.isVoid) := by
  have hrange := dead_iff.mp hdead
  cases hstorage : ring.storage with
  | absent => exact obstacle?_of_inert (by rw [hstorage]; rfl) request
  | noCells => exact obstacle?_of_inert (by rw [hstorage]; rfl) request
  | lent slots =>
      rw [obstacle?_of_slots hstorage, hrange]
      cases request.isVoid <;> rfl

theorem eq_error_of_dead {result : Except Fault β} {request : Request}
    (hdecided : failure? result = ring.obstacle? request) :
    result = .error (ring.storage.deadFault request.isVoid) :=
  failure?_eq_some.mp (hdecided.trans (obstacle?_of_dead hdead request))

theorem insert_of_dead (item : α) (line : UInt32) :
    (ring.insert item line).result = .error (ring.storage.deadFault false) :=
  eq_error_of_dead hdead ((failure?_tracked _ .insert line).trans (ring.failure?_offer item))

theorem remove_of_dead (line : UInt32) :
    (ring.remove line).result = .error (ring.storage.deadFault false) :=
  eq_error_of_dead hdead ((failure?_tracked _ .remove line).trans ring.failure?_take)

theorem peek_of_dead (offset : UInt64) (line : UInt32) :
    (ring.peek offset line).result = .error (ring.storage.deadFault false) :=
  have hshown : failure? (ring.peek offset line).result = failure? (ring.itemAt offset) :=
    failure?_tracked (.query ring (ring.itemAt offset)) .peek line
  eq_error_of_dead hdead (hshown.trans (ring.failure?_itemAt offset))

theorem check_of_dead (line : UInt32) :
    (ring.check line).result = .error (ring.storage.deadFault false) :=
  eq_error_of_dead hdead ((failure?_tracked _ .check line).trans ring.failure?_integrity)

theorem occupancy_of_dead : ring.occupancy = 0 := by
  simp [occupancy_eq_ite, dead_iff.mp hdead]

theorem freeSpace_of_dead : ring.freeSpace = 0 := by
  simp [freeSpace_eq_ite, dead_iff.mp hdead]

theorem insertMany_of_dead (items : List α) (line : UInt32) :
    (ring.insertMany items line).result = .error (ring.storage.deadFault items.isEmpty) := by
  have hvoid : (Request.insertMany items.length).isVoid = items.isEmpty := by
    cases items <;> rfl
  rw [← hvoid]
  exact eq_error_of_dead hdead
    ((failure?_tracked _ .insertMany line).trans (ring.failure?_offerAll items))

theorem removeMany_of_dead (buffer : List α) (line : UInt32) :
    (ring.removeMany buffer line).result =
      (.error (ring.storage.deadFault buffer.isEmpty), buffer) := by
  have hvoid : (Request.removeMany buffer.length).isVoid = buffer.isEmpty := by
    cases buffer <;> rfl
  have hfails := eq_error_of_dead hdead (ring.failure?_removeMany buffer line)
  have huntouched := (removeMany_of_error hfails).2
  rw [hvoid] at hfails
  exact Prod.ext hfails huntouched

end

theorem deadFault_ne_of_waits {storage : Storage α} {waitingOn : Fault}
    (hwaits : waitingOn = .full ∨ waitingOn = .empty) : storage.deadFault false ≠ waitingOn := by
  rcases hwaits with rfl | rfl <;> cases storage <;> exact nofun

/-- There is nothing that a wait on a dead ring could wait for. -/
theorem waitingCall_of_dead {attempt : Ring α → Outcome α (Except Fault β)}
    {operation : Operation} {waitingOn : Fault} {line : UInt32} {timeout : Duration}
    {interludes : List (Interlude α)} {verdict : Verdict β}
    {trace : List (Beat β (List (Answer α)))} {events : List (Event α)} {final : Ring α}
    (hwaits : waitingOn = .full ∨ waitingOn = .empty)
    (hfails : (attempt ring).result = .error (ring.storage.deadFault false))
    (hcall : WaitingCall attempt operation waitingOn line timeout interludes ring verdict trace
      events final) :
    verdict = .settled (.error (ring.storage.deadFault false)) ∧
      trace = [.now, .attempt (.error (ring.storage.deadFault false))] := by
  obtain ⟨hwaited, _⟩ := hcall
  have hother : failure? (attempt ring).result ≠ some waitingOn := by
    rw [hfails]
    exact fun hsame => deadFault_ne_of_waits hwaits (Option.some.inj hsame)
  rw [← hfails]
  exact hwaited.atOnce_of (.inl (failsWith_eq_false hother))

end Ring

section

variable {α : Type} {ring : Ring α} (hdead : ring.Dead) {answer : Answer α}

include hdead

theorem Query.answer_of_dead {question : Query}
    (hanswer : (SharedCall.query question).deadAnswer? ring.storage = some answer) :
    question.answer ring = answer := by
  have hoccupancy := Ring.occupancy_of_dead hdead
  have hfree := Ring.freeSpace_of_dead hdead
  cases question with
  | capacity => exact Option.some.inj hanswer
  | occupancy => exact (congrArg Answer.number hoccupancy).trans (Option.some.inj hanswer)
  | freeSpace => exact (congrArg Answer.number hfree).trans (Option.some.inj hanswer)
  | isEmpty =>
      exact (congrArg (fun held => Answer.flag (held == 0)) hoccupancy).trans
        (Option.some.inj hanswer)
  | isFull =>
      exact (congrArg (fun free => Answer.flag (free == 0)) hfree).trans (Option.some.inj hanswer)
  | overwriteEnabled | pacing | counters | lastFailure | text => cases hanswer

theorem SharedCall.result_of_dead (call : SharedCall α)
    (hanswer : call.deadAnswer? ring.storage = some answer) : (call.run ring).result = answer := by
  cases call with
  | query question => exact question.answer_of_dead hdead hanswer
  | forceIndices producer consumer => cases hanswer
  | insert item line =>
      rw [← Option.some.inj hanswer]
      exact congrArg Answer.unit (Ring.insert_of_dead hdead item line)
  | remove line =>
      rw [← Option.some.inj hanswer]
      exact congrArg Answer.item (Ring.remove_of_dead hdead line)
  | peek offset line =>
      rw [← Option.some.inj hanswer]
      exact congrArg Answer.item (Ring.peek_of_dead hdead offset line)
  | insertMany items line =>
      rw [← Option.some.inj hanswer]
      exact congrArg Answer.count (Ring.insertMany_of_dead hdead items line)
  | insertManyCount items line =>
      rw [← Option.some.inj hanswer]
      exact congrArg (fun result => Answer.plainCount (Ring.countOf result))
        (Ring.insertMany_of_dead hdead items line)
  | removeMany buffer line =>
      rw [← Option.some.inj hanswer]
      exact congrArg (fun moved => Answer.buffer moved.1 moved.2)
        (Ring.removeMany_of_dead hdead buffer line)
  | removeManyCount buffer line =>
      rw [← Option.some.inj hanswer]
      exact congrArg (fun moved => Answer.plainBuffer (Ring.countOf moved.1) moved.2)
        (Ring.removeMany_of_dead hdead buffer line)
  | insertWithin item timeout clock scripts line =>
      rw [← Option.some.inj hanswer]
      obtain ⟨verdict, trace, hresult, hcall⟩ :=
        waitingCall_insertWithin item timeout clock scripts line ring
      have hoffer := Ring.eq_error_of_dead hdead (ring.failure?_offer item)
      obtain ⟨rfl, rfl⟩ := Ring.waitingCall_of_dead (.inl rfl) hoffer hcall
      exact hresult
  | removeWithin timeout clock scripts line =>
      rw [← Option.some.inj hanswer]
      obtain ⟨verdict, trace, hresult, hcall⟩ :=
        waitingCall_removeWithin timeout clock scripts line ring
      have htake := Ring.eq_error_of_dead hdead ring.failure?_take
      obtain ⟨rfl, rfl⟩ := Ring.waitingCall_of_dead (.inr rfl) htake hcall
      exact hresult
  | check line =>
      rw [← Option.some.inj hanswer]
      exact congrArg Answer.unit (Ring.check_of_dead hdead line)
  | isSound line =>
      rw [← Option.some.inj hanswer]
      exact congrArg (fun result => Answer.flag result.isOk) (Ring.check_of_dead hdead line)

end

/-! ## What stays of a dead ring -/

/-- The ring has changed in no more than its settings and its record of failures, and its
counters are what they were or were reset. -/
structure Ring.Frozen {α : Type} (ring next : Ring α) : Prop where
  storage : next.storage = ring.storage
  producer : next.producer = ring.producer
  consumer : next.consumer = ring.consumer
  recorder : next.recorder = ring.recorder ∨ next.recorder = ring.recorder.reset

namespace Ring

variable {α : Type} {ring next : Ring α} {events : List (Event α)}

theorem Frozen.refl (ring : Ring α) : ring.Frozen ring := ⟨rfl, rfl, rfl, .inl rfl⟩

theorem Frozen.trans {final : Ring α} (hfirst : ring.Frozen next) (hsecond : next.Frozen final) :
    ring.Frozen final := by
  refine ⟨hsecond.storage.trans hfirst.storage, hsecond.producer.trans hfirst.producer,
    hsecond.consumer.trans hfirst.consumer, ?_⟩
  rcases hfirst.recorder with hkept | hkept <;> rcases hsecond.recorder with hlater | hlater
  · exact .inl (hlater.trans hkept)
  · exact .inr (hlater.trans (congrArg Recorder.reset hkept))
  · exact .inr (hlater.trans hkept)
  · exact .inr (hlater.trans ((congrArg Recorder.reset hkept).trans ring.recorder.reset_reset))

theorem Frozen.inRange_eq (hfrozen : ring.Frozen next) : next.inRange = ring.inRange := by
  simp only [inRange, lap, capacity, hfrozen.storage, hfrozen.producer, hfrozen.consumer]

theorem Frozen.dead (hfrozen : ring.Frozen next) (hdead : ring.Dead) : next.Dead :=
  dead_iff.mpr (hfrozen.inRange_eq.trans (dead_iff.mp hdead))

section

variable (hdead : ring.Dead)

include hdead

theorem frozen_offer (item : α) (overwrite : Bool) :
    ring.Frozen (ring.offer item overwrite).ring := by
  have hoffered := ring.offered item overwrite
  generalize ring.offer item overwrite = outcome at hoffered ⊢
  cases hoffered with
  | inert | corrupted => exact .refl ring
  | full _ hrange | replaced _ hrange | accepted _ hrange =>
      rw [dead_iff.mp hdead] at hrange
      cases hrange

theorem frozen_take : ring.Frozen ring.take.ring := by
  have htaken := ring.taken
  generalize ring.take = outcome at htaken ⊢
  cases htaken with
  | inert | corrupted => exact .refl ring
  | empty _ hrange | delivered _ hrange =>
      rw [dead_iff.mp hdead] at hrange
      cases hrange

theorem Move.frozen (hmove : Move false ring events next) : ring.Frozen next := by
  cases hmove with
  | offer => exact frozen_offer hdead _ ring.overwrite
  | take => exact frozen_take hdead
  | check =>
      rw [ring_integrity]
      exact .refl ring
  | fail | giveUp => exact ⟨rfl, rfl, rfl, .inl rfl⟩
  | force hstray => cases hstray

/-- Nothing moves on a dead ring, and only a reset touches its counters. -/
theorem Change.frozen (hchange : Change false ring events next) : ring.Frozen next := by
  cases hchange with
  | move hmove => exact hmove.frozen hdead
  | setUp hstray => cases hstray
  | setPacing _ pacing line =>
      have hend := ring.paced pacing line
      generalize ring.setPacing pacing line = outcome at hend ⊢
      cases hend with
      | installed | refused => exact ⟨rfl, rfl, rfl, .inl rfl⟩
  | setOverwrite | clearFailure => exact ⟨rfl, rfl, rfl, .inl rfl⟩
  | resetCounters => exact ⟨rfl, rfl, rfl, .inr rfl⟩

theorem Course.frozen (hcourse : Course (Change false) ring events next) : ring.Frozen next := by
  induction hcourse with
  | rest => exact .refl ring
  | step _ hchange ih => exact ih.trans (hchange.frozen (ih.dead hdead))

end

end Ring

structure Snapshot.ShowsDead {α : Type} (ring : Ring α) (snapshot : Snapshot) : Prop where
  capacity : snapshot.capacity = ring.capacity
  producer : snapshot.producer = ring.producer
  consumer : snapshot.consumer = ring.consumer
  occupancy : snapshot.occupancy = 0
  freeSpace : snapshot.freeSpace = 0
  isEmpty : snapshot.isEmpty = true
  isFull : snapshot.isFull = true
  counters : snapshot.counters = ring.counters ∨ snapshot.counters = .zero

theorem Ring.Frozen.showsDead {α : Type} {ring next : Ring α} (hdead : ring.Dead)
    (hfrozen : ring.Frozen next) : next.snapshot.ShowsDead ring where
  capacity := congrArg Storage.capacity hfrozen.storage
  producer := hfrozen.producer
  consumer := hfrozen.consumer
  occupancy := Ring.occupancy_of_dead (hfrozen.dead hdead)
  freeSpace := Ring.freeSpace_of_dead (hfrozen.dead hdead)
  isEmpty := congrArg (· == 0) (Ring.occupancy_of_dead (hfrozen.dead hdead))
  isFull := congrArg (· == 0) (Ring.freeSpace_of_dead (hfrozen.dead hdead))
  counters := by
    rcases hfrozen.recorder with hkept | hreset
    · exact .inl (congrArg Recorder.snapshot hkept)
    · exact .inr ((congrArg Recorder.snapshot hreset).trans (Recorder.snapshot_reset _))

/-! ## Sessions over dead rings -/

def SharedCall.FailsOn {α : Type} (ring : Ring α) (call : SharedCall α)
    (step : Step α (Answer α)) : Prop :=
  (∀ answer, call.deadAnswer? ring.storage = some answer → step.reply = answer) ∧
    step.after.ShowsDead ring

inductive Call.FailsOn {α : Type} (ring : Ring α) : Call α → Reply α → Prop where
  | shared {call : SharedCall α} {answer : Answer α}
      (hanswer : ∀ dead, call.deadAnswer? ring.storage = some dead → answer = dead) :
      FailsOn ring (.shared call) (.answer answer)
  | split {calls : List (SharedCall α)} {steps : List (Step α (Answer α))}
      (hsteps : List.Forall₂ (SharedCall.FailsOn ring) calls steps) :
      FailsOn ring (.split calls) (.parts steps)
  | control {call : Call α} (hcontrol : call.isControl = true) (answer : Answer α) :
      FailsOn ring call (.answer answer)

section

variable {α : Type} {start ring : Ring α} (hdead : start.Dead)

include hdead

theorem SharedCall.failsOn_step (hfrozen : start.Frozen ring) (call : SharedCall α)
    (hsteady : call.steady = true) :
    call.FailsOn start (call.run ring).step.1 ∧ start.Frozen (call.run ring).ring := by
  have hmoves : Ring.Course (Ring.Change false) ring (call.run ring).events (call.run ring).ring :=
    (call.moves_run (.inr hsteady) ring).mono fun _ _ _ => .move
  have hnext : start.Frozen (call.run ring).ring :=
    hfrozen.trans (Ring.Course.frozen (hfrozen.dead hdead) hmoves)
  refine ⟨⟨?_, hnext.showsDead hdead⟩, hnext⟩
  intro answer hanswer
  rw [← hfrozen.storage] at hanswer
  exact call.result_of_dead (hfrozen.dead hdead) hanswer

theorem SharedCall.failsOn_stepAll (hfrozen : start.Frozen ring) {calls : List (SharedCall α)}
    (hsteady : steadyAll calls = true) :
    List.Forall₂ (SharedCall.FailsOn start) calls (stepAll calls ring).1 ∧
      start.Frozen (stepAll calls ring).2 := by
  induction calls generalizing ring with
  | nil => exact ⟨.nil, hfrozen⟩
  | cons call later ih =>
      rw [steadyAll, Bool.and_eq_true] at hsteady
      obtain ⟨hstep, hnext⟩ := call.failsOn_step hdead hfrozen hsteady.1
      obtain ⟨hsteps, hfinal⟩ := ih hnext hsteady.2
      exact ⟨.cons hstep hsteps, hfinal⟩

namespace Session

variable {session : Session α}

theorem failsOn_perform (hfrozen : start.Frozen session.ring) {call : Call α}
    (hsteady : call.steady = true) :
    call.FailsOn start (session.perform call).1.reply ∧
      start.Frozen (session.perform call).2.ring := by
  have hcourse : Ring.Course (Ring.Change false) session.ring (session.perform call).1.allEvents
      (session.perform call).2.ring := session.course_perform call (.inr hsteady)
  refine ⟨?_, hfrozen.trans (Ring.Course.frozen (hfrozen.dead hdead) hcourse)⟩
  cases call with
  | shared call => exact .shared (call.failsOn_step hdead hfrozen hsteady).1.1
  | split calls => exact .split (SharedCall.failsOn_stepAll hdead hfrozen hsteady).1
  | setUp store line => cases hsteady
  | setPacing | setOverwrite | resetCounters | clearFailure => exact .control rfl _

theorem failsOn_performAll (hfrozen : start.Frozen session.ring) {calls : List (Call α)}
    (hsteady : ∀ call ∈ calls, call.steady = true) :
    List.Forall₂ (fun call step => call.FailsOn start step.reply ∧ step.after.ShowsDead start)
        calls (session.performAll calls).1 ∧
      start.Frozen (session.performAll calls).2.ring := by
  induction calls generalizing session with
  | nil => exact ⟨.nil, hfrozen⟩
  | cons call later ih =>
      obtain ⟨hcall, hlater⟩ := List.forall_mem_cons.mp hsteady
      obtain ⟨hfails, hnext⟩ := failsOn_perform hdead hfrozen hcall
      obtain ⟨hsteps, hfinal⟩ := ih hnext hlater
      have hshown := hnext.showsDead hdead
      rw [← session.after_perform] at hshown
      exact ⟨.cons ⟨hfails, hshown⟩ hsteps, hfinal⟩

end Session

end

/-! ## Setting up afresh -/

theorem Ring.setUp_eq {α : Type} {ring other : Ring α}
    (hrecorder : ring.recorder.reset = other.recorder.reset) (storage : Storage α)
    (line : UInt32) : ring.setUp storage line = other.setUp storage line := by
  simp only [setUp, rebind, hrecorder]

namespace Session

variable {α : Type}

theorem stores_performAll (session : Session α) {calls : List (Call α)}
    (hsteady : ∀ call ∈ calls, call.steady = true) :
    (session.performAll calls).2.stores = session.stores ∧
      (session.performAll calls).2.lent = session.lent := by
  induction calls generalizing session with
  | nil => exact ⟨rfl, rfl⟩
  | cons call later ih =>
      obtain ⟨hcall, hlater⟩ := List.forall_mem_cons.mp hsteady
      have hrest := ih (session.perform call).2 hlater
      cases call with
      | setUp store line => cases hcall
      | shared | setPacing | setOverwrite | resetCounters | clearFailure | split => exact hrest

/-- A session that sets its ring up goes on like a new one over the same stores. -/
theorem performAll_setUp (session : Session α) {build : Build}
    (hbuild : build.recorder = session.ring.recorder.reset) (store : Option Nat) (line : UInt32)
    (later : List (Call α)) :
    session.performAll (.setUp store line :: later) =
      (fresh build session.returned).performAll (.setUp store line :: later) := by
  have hsetUp : ∀ storage, session.ring.setUp storage line =
      (fresh build session.returned).ring.setUp storage line := by
    intro storage
    apply Ring.setUp_eq
    rw [← hbuild]
    exact build.reset_recorder.symm
  have hlend : session.lend store line = (fresh build session.returned).lend store line := by
    unfold lend
    simp only [hsetUp]
    rfl
  simp only [performAll, perform, hlend]

/-- A dead ring stays dead until it is set up afresh. Whatever else is done to it, short of
writing over its indices, its memory and its indices stay as they are and no counter rises; it
shows itself empty and full at once; each request fails with the fault of the dead ring, and a
waiting one after a single attempt. Then setting it up makes everything that follows the same
as on a new ring over the same stores. -/
theorem dead_until_setUp (session : Session α) (calls : List (Call α))
    (hdead : session.ring.Dead) (hsteady : ∀ call ∈ calls, call.steady = true) :
    let run := session.performAll calls
    List.Forall₂
        (fun call step => call.FailsOn session.ring step.reply ∧ step.after.ShowsDead session.ring)
        calls run.1 ∧
      run.2.ring.Dead ∧ session.ring.Frozen run.2.ring ∧ run.2.returned = session.returned ∧
      ∃ build : Build, build.recorder = session.ring.recorder.reset ∧
        ∀ (store : Option Nat) (line : UInt32) (later : List (Call α)),
          run.2.performAll (.setUp store line :: later) =
            (fresh build session.returned).performAll (.setUp store line :: later) := by
  intro run
  obtain ⟨hsteps, hfrozen⟩ := failsOn_performAll hdead (.refl session.ring) hsteady
  obtain ⟨hstores, hlent⟩ := session.stores_performAll hsteady
  have hreturned : run.2.returned = session.returned := by
    unfold returned
    rw [hfrozen.storage, hstores, hlent]
  obtain ⟨build, hbuild⟩ := Build.exists_recorder_eq_reset session.ring.recorder
  have hreset : build.recorder = run.2.ring.recorder.reset := by
    rcases hfrozen.recorder with hkept | hreset
    · rw [hkept, hbuild]
    · rw [hreset, hbuild, Recorder.reset_reset]
  refine ⟨hsteps, hfrozen.dead hdead, hfrozen, hreturned, build, hbuild, ?_⟩
  intro store line later
  rw [← hreturned]
  exact run.2.performAll_setUp hreset store line later

theorem dead_until_setUp_astray :
    let session : Session Nat := ⟨.astray, [⟨#[5, 0], by decide⟩], some 0⟩
    let calls : List (Call Nat) :=
      [.setOverwrite true, .shared (.insert 7 3), .split [.removeMany [] 4, .query .occupancy],
        .shared (.insertWithin 6 (.ofMillis 3) (.exact .zero) [[.remove 4]] 9), .resetCounters]
    let run := session.performAll calls
    session.ring.Dead ∧ (∀ call ∈ calls, call.steady = true) ∧
      run.2.ring.Dead ∧ run.2.ring.storage = session.ring.storage ∧
      ∃ build : Build, build.recorder = .on .zero ∧
        run.2.performAll [.setUp (some 0) 1, .shared (.insert 8 2), .shared (.remove 3)] =
          (fresh build session.returned).performAll
            [.setUp (some 0) 1, .shared (.insert 8 2), .shared (.remove 3)] := by
  intro session calls run
  have hdead : session.ring.Dead := Ring.dead_iff.mpr (by decide)
  have hsteady : ∀ call ∈ calls, call.steady = true := by decide
  obtain ⟨_, hstill, hfrozen, _, build, hbuild, hagain⟩ :=
    session.dead_until_setUp calls hdead hsteady
  exact ⟨hdead, hsteady, hstill, hfrozen.storage, build, hbuild, hagain _ _ _⟩

end Session

end SpscRing
