import SpscRing.Fault.Basic
/-!
# Where a failure came from

A failure is reported with the operation that failed and, where the caller is to
blame, with the argument that was wrong.
-/

namespace SpscRing

inductive Operation where
  | setUp
  | insert
  | remove
  | peek
  | insertMany
  | removeMany
  | insertWithin
  | removeWithin
  | check
  | setPacing
  deriving DecidableEq, Repr, Inhabited

namespace Operation

def name : Operation → String
  | setUp => "init"
  | insert => "insert"
  | remove => "remove"
  | peek => "peek"
  | insertMany => "insert_bulk"
  | removeMany => "remove_bulk"
  | insertWithin => "insert_with_timeout"
  | removeWithin => "remove_with_timeout"
  | check => "sanity_check"
  | setPacing => "set_poll_policy"

def code : Operation → UInt8
  | setUp => 1
  | insert => 2
  | remove => 3
  | peek => 4
  | insertMany => 5
  | removeMany => 6
  | insertWithin => 7
  | removeWithin => 8
  | check => 9
  | setPacing => 10

def ofCode? (code : UInt8) : Option Operation :=
  match code.toNat with
  | 1 => some setUp
  | 2 => some insert
  | 3 => some remove
  | 4 => some peek
  | 5 => some insertMany
  | 6 => some removeMany
  | 7 => some insertWithin
  | 8 => some removeWithin
  | 9 => some check
  | 10 => some setPacing
  | _ => none

@[simp] theorem ofCode?_code (operation : Operation) :
    ofCode? operation.code = some operation := by
  cases operation <;> rfl

end Operation

inductive Argument where
  | storage
  | offset
  | items
  | timeout
  | pacing
  deriving DecidableEq, Repr, Inhabited

namespace Argument

def name : Argument → String
  | storage => "storage"
  | offset => "offset"
  | items => "items"
  | timeout => "timeout"
  | pacing => "policy"

def code : Argument → UInt8
  | storage => 1
  | offset => 2
  | items => 3
  | timeout => 4
  | pacing => 5

def ofCode? (code : UInt8) : Option Argument :=
  match code.toNat with
  | 1 => some storage
  | 2 => some offset
  | 3 => some items
  | 4 => some timeout
  | 5 => some pacing
  | _ => none

@[simp] theorem ofCode?_code (argument : Argument) :
    ofCode? argument.code = some argument := by
  cases argument <;> rfl

@[simp] theorem ofCode?_zero : ofCode? 0 = none := rfl

/-- The argument that a failure points at. A full, empty or corrupted ring is
nobody's argument. -/
def blamedFor : Fault → Option Argument
  | .noStorage | .emptyStorage => some storage
  | .badOffset => some offset
  | .noItems => some items
  | .timedOut => some timeout
  | .badPacing => some pacing
  | .full | .empty | .corrupted => none

end Argument

end SpscRing
