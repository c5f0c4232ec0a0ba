import SpscRing.Proofs.ParallelSessions
/-!
# Calls that tell how they failed

Some calls tell a number, or yes or no, where another call that does the same tells how it
failed. A run in which that other call is made instead goes the same way in all else. From
its answers more can be read than from those of the run itself.
-/

namespace SpscRing

/-! ## Explicit forms -/

namespace SharedCall

variable {α : Type}

-- The call that does the same and tells how it failed, and likewise for all that others do
-- during its sleeps.
mutual

def explicit : SharedCall α → SharedCall α
  | insertManyCount items line => insertMany items line
  | removeManyCount buffer line => removeMany buffer line
  | isSound line => check line
  | insertWithin item timeout clock interludes line =>
    insertWithin item timeout clock (explicitInterludes interludes) line
  | removeWithin timeout clock interludes line =>
    removeWithin timeout clock (explicitInterludes interludes) line
  | call => call

def explicitAll : List (SharedCall α) → List (SharedCall α)
  | [] => []
  | call :: later => call.explicit :: explicitAll later

def explicitInterludes : List (List (SharedCall α)) → List (List (SharedCall α))
  | [] => []
  | calls :: later => explicitAll calls :: explicitInterludes later

end

end SharedCall

def Call.explicit {α : Type} : Call α → Call α
  | .shared call => .shared call.explicit
  | .split calls => .split (SharedCall.explicitAll calls)
  | call => call

/-- An answer that leaves out how a call failed, and the answer of its explicit form. -/
inductive Answer.Brief {α : Type} : Answer α → Answer α → Prop where
  | count (result : Except Fault Nat) : Brief (.plainCount (Ring.countOf result)) (.count result)
  | buffer (result : Except Fault Nat) (cells : List α) :
      Brief (.plainBuffer (Ring.countOf result) cells) (.buffer result cells)
  | flag (result : Except Fault Unit) : Brief (.flag result.isOk) (.unit result)

def Likeness.brief (α : Type) : Likeness α where
  rings := Eq
  answers := Answer.Like Answer.Brief
  storage_eq := congrArg Ring.storage
  overwrite_eq := congrArg Ring.overwrite
  pacing_eq := congrArg Ring.pacing
  fail operation fault line hsame :=
    congrArg (fun ring => { ring with latch := .ofFailure operation fault line }) hsame
  same _ := .same _
  waitedInsert verdict _ _ := .waitedInsert verdict
  waitedRemove verdict _ _ := .waitedRemove verdict

section

variable {α β : Type}

theorem Likeness.keeps_brief (action : Ring α → Outcome α β) :
    (Likeness.brief α).Keeps Eq action action := by
  rintro ring _ rfl
  exact ⟨rfl, rfl, rfl⟩

theorem Likeness.controlled_brief : (Likeness.brief α).Controlled where
  setUp _ _ := keeps_brief _
  setPacing _ _ := keeps_brief _
  setOverwrite _ := keeps_brief _
  resetCounters := keeps_brief _
  clearFailure := keeps_brief _

namespace SharedCall

theorem forall₂_explicitAll {related : SharedCall α → SharedCall α → Prop}
    {calls : List (SharedCall α)} (hcalls : ∀ call ∈ calls, related call call.explicit) :
    List.Forall₂ related calls (explicitAll calls) := by
  induction calls with
  | nil => exact .nil
  | cons call later ih =>
      obtain ⟨hcall, hlater⟩ := List.forall_mem_cons.mp hcalls
      exact .cons hcall (ih hlater)

theorem forall₂_explicitInterludes {related : SharedCall α → SharedCall α → Prop}
    {scripts : List (List (SharedCall α))}
    (hpeers : ∀ calls ∈ scripts, ∀ peer ∈ calls, related peer peer.explicit) :
    List.Forall₂ (List.Forall₂ related) scripts (explicitInterludes scripts) := by
  induction scripts with
  | nil => exact .nil
  | cons calls later ih =>
      obtain ⟨hcalls, hlater⟩ := List.forall_mem_cons.mp hpeers
      exact .cons (forall₂_explicitAll hcalls) (ih hlater)

theorem keeps_explicit (call : SharedCall α) :
    (Likeness.brief α).Keeps (Answer.Like Answer.Brief) call.run call.explicit.run := by
  induction call using induct with
  | hstep call ih =>
      have hothers := Likeness.keeps_runInterludes (forall₂_explicitInterludes ih)
      rintro ring _ rfl
      cases call with
      | insertManyCount items line => exact ⟨.apart (.count _), rfl, rfl⟩
      | removeManyCount buffer line => exact ⟨.apart (.buffer _ _), rfl, rfl⟩
      | isSound line => exact ⟨.apart (.flag _), rfl, rfl⟩
      | insertWithin item timeout clock scripts line =>
          exact Likeness.keeps_waitToInsert hothers (fun _ => Likeness.keeps_brief _) rfl
      | removeWithin timeout clock scripts line =>
          exact Likeness.keeps_waitToRemove hothers (Likeness.keeps_brief _) rfl
      | _ => exact ⟨.same _, rfl, rfl⟩

end SharedCall

theorem Call.performs_explicit (call : Call α) :
    (Likeness.brief α).Performs Eq call call.explicit := by
  have hsnapshot : ∀ {first second : Ring α}, first = second → first.snapshot = second.snapshot :=
    congrArg Ring.snapshot
  cases call with
  | shared call =>
      exact Likeness.performs_change hsnapshot (fun _ => rfl) (fun _ => rfl) call.keeps_explicit
  | split calls =>
      exact Likeness.performs_split hsnapshot
        (SharedCall.forall₂_explicitAll fun call _ => call.keeps_explicit)
  | _ => exact Likeness.performs_control hsnapshot Likeness.controlled_brief nofun nofun

theorem Call.forall₂_explicit (calls : List (Call α)) :
    List.Forall₂ ((Likeness.brief α).Performs Eq) calls (calls.map Call.explicit) :=
  List.forall₂_map_right_iff.mpr (List.forall₂_same.mpr fun call _ => call.performs_explicit)

namespace Session

/-- A run of explicit forms goes the same way, and its answers only tell more. -/
theorem run_explicit (build : Build) (opening : Opening) (stores : List (Memory α))
    (calls : List (Call α)) :
    (run build opening stores calls).Like (Answer.Like Answer.Brief) Eq
      (run build opening stores (calls.map Call.explicit)) :=
  Likeness.run_like Likeness.controlled_brief (congrArg Ring.snapshot) rfl opening
    (Call.forall₂_explicit calls)

theorem performAll_explicit (session : Session α) (calls : List (Call α)) :
    let run := session.performAll calls
    let explicit := session.performAll (calls.map Call.explicit)
    List.Forall₂ (Step.Like (Reply.Like (Answer.Like Answer.Brief) Eq) Eq) run.1 explicit.1 ∧
      run.2.ring = explicit.2.ring := by
  have hsame : (Likeness.brief α).Sessions session session := ⟨rfl, rfl, rfl⟩
  obtain ⟨hsteps, hfinal⟩ := Likeness.performAll_like (Call.forall₂_explicit calls) hsame
  exact ⟨hsteps, hfinal.ring⟩

end Session

end

end SpscRing
