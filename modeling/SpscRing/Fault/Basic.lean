/-!
# Ways an operation fails

Each way has a stable code, never zero, so that a code fits in one byte of a packed
word and zero can stand for "no failure".
-/

namespace SpscRing

/-- A way in which an operation on a ring can fail. -/
inductive Fault where
  /-- No memory was lent to the ring. -/
  | noStorage
  /-- The memory lent to the ring has no cells. -/
  | emptyStorage
  /-- No slot is free and the oldest item may not be dropped. -/
  | full
  | empty
  /-- A peek went past the items held. -/
  | badOffset
  /-- A bulk call was given nothing to move. -/
  | noItems
  /-- An index is out of range, so the state of the ring cannot be trusted. -/
  | corrupted
  | timedOut
  /-- A pacing would spin, or has a cap below its first interval. -/
  | badPacing
  deriving DecidableEq, Repr, Inhabited

namespace Fault

def message : Fault → String
  | noStorage => "Null pointer argument"
  | emptyStorage => "Invalid buffer size"
  | full => "Buffer is full"
  | empty => "Buffer is empty"
  | badOffset => "Invalid offset"
  | noItems => "Invalid count parameter"
  | corrupted => "Buffer integrity check failed"
  | timedOut => "Operation timed out"
  | badPacing => "Invalid parameter value"

def code : Fault → UInt8
  | noStorage => 1
  | emptyStorage => 2
  | full => 3
  | empty => 4
  | badOffset => 5
  | noItems => 6
  | corrupted => 7
  | timedOut => 8
  | badPacing => 9

def ofCode? (code : UInt8) : Option Fault :=
  match code.toNat with
  | 1 => some noStorage
  | 2 => some emptyStorage
  | 3 => some full
  | 4 => some empty
  | 5 => some badOffset
  | 6 => some noItems
  | 7 => some corrupted
  | 8 => some timedOut
  | 9 => some badPacing
  | _ => none

@[simp] theorem ofCode?_code (fault : Fault) : ofCode? fault.code = some fault := by
  cases fault <;> rfl

@[simp] theorem ofCode?_zero : ofCode? 0 = none := rfl

theorem code_ne_zero (fault : Fault) : fault.code ≠ 0 := by
  cases fault <;> decide

end Fault

end SpscRing
