import SpscRing.Counters
import SpscRing.Fault.Report
import SpscRing.Wait.Basic
/-!
# Answers

What a call answers. The answer of a waiting call holds its whole trace, and in it
the answers of the calls that were made during its sleeps.
-/

namespace SpscRing

inductive Answer (α : Type) where
  /-- Nothing but that it was done. -/
  | done
  | unit (result : Except Fault Unit)
  | item (result : Except Fault α)
  | count (result : Except Fault Nat)
  /-- A bulk remove: how many items, and the whole buffer. -/
  | buffer (result : Except Fault Nat) (cells : List α)
  | plainCount (moved : Nat)
  | plainBuffer (moved : Nat) (cells : List α)
  | number (value : UInt64)
  | flag (value : Bool)
  | pacing (value : Pacing)
  | counters (value : Counters)
  | report (value : Report)
  | text (line indented : String)
  | waitedInsert (verdict : Verdict Unit) (trace : List (Beat Unit (List (Answer α))))
  | waitedRemove (verdict : Verdict α) (trace : List (Beat α (List (Answer α))))

end SpscRing
