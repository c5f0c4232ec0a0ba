import SpscRing.Fault.Origin
/-!
# Failure reports

A report says what failed, in which operation, through which argument, and on
which line of the caller. A clear report has no cause and line zero.
-/

namespace SpscRing

structure Report where
  cause : Option Fault
  operation : Option Operation
  argument : Option Argument
  line : UInt32
  deriving DecidableEq, Repr, Inhabited

namespace Report

def clear : Report := ⟨none, none, none, 0⟩

/-- A report without a cause tells of no failure, whatever its other fields say. -/
def isClear (report : Report) : Bool := report.cause.isNone

def ofFailure (operation : Operation) (fault : Fault) (line : UInt32) : Report :=
  ⟨some fault, some operation, Argument.blamedFor fault, line⟩

/-- The text of a report: the operation in front, the blamed argument behind the
message, each only where it is known. -/
def text (report : Report) : String :=
  match report.cause with
  | none => "Success"
  | some fault =>
    let origin := match report.operation with
      | some operation => operation.name ++ ": "
      | none => ""
    let blame := match report.argument with
      | some argument => " (parameter `" ++ argument.name ++ "`)"
      | none => ""
    origin ++ fault.message ++ blame ++ " at line " ++ toString report.line.toNat

@[simp] theorem isClear_clear : clear.isClear = true := rfl

@[simp] theorem isClear_ofFailure (operation : Operation) (fault : Fault) (line : UInt32) :
    (ofFailure operation fault line).isClear = false := rfl

end Report

end SpscRing
