import SpscRing.Build
import SpscRing.Session.Step
/-!
# Sessions

A session is the life of one ring: it is opened, and then calls are made on it. Its
caller owns a number of stores and lends them to the ring one at a time; the ring gives
a store back, as it left it, when it is set up afresh or the session ends.
-/

namespace SpscRing

inductive Opening where
  | unbound
  /-- Over the first store; a failure to set the ring up is only recorded. -/
  | bound (line : UInt32)
  /-- Over the first store; a failure to set the ring up ends the session. -/
  | tryBound (line : UInt32)
  deriving DecidableEq, Repr

structure Session (α : Type) where
  ring : Ring α
  /-- The caller's stores, as far as they were given back. -/
  stores : List (Memory α)
  /-- The store that is lent to the ring. -/
  lent : Option Nat

inductive Transcript (α : Type) where
  | refused (fault : Fault) (events : List (Event α)) (stores : List (Memory α))
  | completed (steps : List (Step α (Reply α))) (stores : List (Memory α))

namespace Session

def returned {α : Type} (session : Session α) : List (Memory α) :=
  match session.lent, session.ring.storage.giveBack? with
  | some index, some memory => session.stores.set index memory
  | _, _ => session.stores

/-- Set the ring up over a store, or over nothing where there is no such store. -/
def lend {α : Type} (session : Session α) (store : Option Nat) (line : UInt32) :
    Outcome α (Except Fault Unit) × Session α :=
  let stores := session.returned
  let storage := match store.bind (stores[·]?) with
    | some memory => memory.lend
    | none => .absent
  let outcome := session.ring.setUp storage line
  (outcome, ⟨outcome.ring, stores, store⟩)

def change {α : Type} (session : Session α) (action : Ring α → Outcome α (Answer α)) :
    Step α (Reply α) × Session α :=
  match session with
  | ⟨ring, stores, lent⟩ =>
    let (step, ring) := ((action ring).map Reply.answer).step
    (step, ⟨ring, stores, lent⟩)

def perform {α : Type} (session : Session α) (call : Call α) :
    Step α (Reply α) × Session α :=
  match call with
  | .shared call => session.change call.run
  | .setUp store line =>
    let (outcome, session) := session.lend store line
    (⟨.answer (.unit outcome.result), outcome.ring.snapshot, outcome.events⟩, session)
  | .setPacing pacing line =>
    session.change fun ring => (ring.setPacing pacing line).map .unit
  | .setOverwrite enabled =>
    session.change fun ring => (ring.setOverwrite enabled).map fun _ => .done
  | .resetCounters => session.change fun ring => ring.resetCounters.map fun _ => .done
  | .clearFailure => session.change fun ring => ring.clearFailure.map fun _ => .done
  | .split calls =>
    match session with
    | ⟨ring, stores, lent⟩ =>
      let (steps, ring) := SharedCall.stepAll calls ring
      (⟨.parts steps, ring.snapshot, []⟩, ⟨ring, stores, lent⟩)

def performAll {α : Type} :
    List (Call α) → Session α → List (Step α (Reply α)) × Session α
  | [], session => ([], session)
  | call :: later, session =>
    let (step, session) := session.perform call
    let (steps, session) := performAll later session
    (step :: steps, session)

def fresh {α : Type} (build : Build) (stores : List (Memory α)) : Session α :=
  ⟨.unbound build.recorder, stores, none⟩

def complete {α : Type} (session : Session α) (opening : Step α (Reply α))
    (calls : List (Call α)) : Transcript α :=
  let (steps, session) := performAll calls session
  .completed (opening :: steps) session.returned

def run {α : Type} (build : Build) (opening : Opening) (stores : List (Memory α))
    (calls : List (Call α)) : Transcript α :=
  let session := fresh build stores
  match opening with
  | .unbound => session.complete ⟨.answer .done, session.ring.snapshot, []⟩ calls
  | .bound line =>
    let (outcome, session) := session.lend (some 0) line
    session.complete ⟨.answer .done, outcome.ring.snapshot, outcome.events⟩ calls
  | .tryBound line =>
    let (outcome, session) := session.lend (some 0) line
    match outcome.result with
    | .error fault => .refused fault outcome.events session.returned
    | .ok () =>
      session.complete ⟨.answer (.unit (.ok ())), outcome.ring.snapshot, outcome.events⟩ calls

end Session

end SpscRing
