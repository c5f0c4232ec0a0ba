import SpscRing.Fault.Report
/-!
# The latch that keeps the last failure

A ring keeps its most recent failure in two machine words: the codes of the
cause, the operation and the argument share one, the line has the other.
Reading the latch gives back what was recorded.
-/

namespace SpscRing

/-- The most recent failure, packed. A word whose lowest byte is no code of a
failure means that there is none. -/
structure FaultLatch where
  word : UInt32
  line : UInt32
  deriving DecidableEq, Repr, Inhabited

namespace FaultLatch

def clear : FaultLatch := ⟨0, 0⟩

def blameByte (fault : Fault) : UInt8 :=
  match Argument.blamedFor fault with
  | some argument => argument.code
  | none => 0

/-- The cause in the lowest byte, the operation above it, the argument above both. -/
def pack (operation : Operation) (fault : Fault) : UInt32 :=
  fault.code.toUInt32 ||| operation.code.toUInt32 <<< 8 ||| (blameByte fault).toUInt32 <<< 16

def ofFailure (operation : Operation) (fault : Fault) (line : UInt32) : FaultLatch :=
  ⟨pack operation fault, line⟩

/-! The three bytes of the word that hold a code. -/

def causeByte (word : UInt32) : UInt8 := word.toUInt8

def operationByte (word : UInt32) : UInt8 := (word >>> 8).toUInt8

def argumentByte (word : UInt32) : UInt8 := (word >>> 16).toUInt8

def report (latch : FaultLatch) : Report :=
  match Fault.ofCode? (causeByte latch.word) with
  | none => .clear
  | some fault =>
    { cause := some fault
      operation := Operation.ofCode? (operationByte latch.word)
      argument := Argument.ofCode? (argumentByte latch.word)
      line := latch.line }

theorem causeByte_pack (operation : Operation) (fault : Fault) :
    causeByte (pack operation fault) = fault.code := by
  cases operation <;> cases fault <;> decide

theorem operationByte_pack (operation : Operation) (fault : Fault) :
    operationByte (pack operation fault) = operation.code := by
  cases operation <;> cases fault <;> decide

theorem argumentByte_pack (operation : Operation) (fault : Fault) :
    argumentByte (pack operation fault) = blameByte fault := by
  cases operation <;> cases fault <;> decide

theorem ofCode?_blameByte (fault : Fault) :
    Argument.ofCode? (blameByte fault) = Argument.blamedFor fault := by
  cases fault <;> rfl

@[simp] theorem report_clear : clear.report = .clear := rfl

/-- Nothing is lost in the packed word. -/
@[simp] theorem report_ofFailure (operation : Operation) (fault : Fault) (line : UInt32) :
    (ofFailure operation fault line).report = .ofFailure operation fault line := by
  simp only [report, ofFailure, causeByte_pack, operationByte_pack, argumentByte_pack,
    Fault.ofCode?_code, Operation.ofCode?_code, ofCode?_blameByte, Report.ofFailure]

end FaultLatch

end SpscRing
