import SpscRing.BoundedQueue
import SpscRing.Session.Basic
import SpscRing.Wait.Rehearsal
import SpscRing.Proofs.Attempt
import SpscRing.Proofs.Queue
import SpscRing.Proofs.Course
import SpscRing.Proofs.Waiting
import SpscRing.Proofs.Calls
import SpscRing.Proofs.Transfers
import SpscRing.Proofs.Delivery
import SpscRing.Proofs.Parallel
import SpscRing.Proofs.ParallelSessions
import SpscRing.Proofs.Explicit
import SpscRing.Proofs.Diagnostics
import SpscRing.Proofs.Interleaving
import SpscRing.Proofs.Placement
import SpscRing.Exact.Ring
import SpscRing.Proofs.Exactness
import SpscRing.Proofs.Decision
import SpscRing.Proofs.Atomicity
import SpscRing.Proofs.Ledger
import SpscRing.Proofs.Failures
import SpscRing.Proofs.Accounting
import SpscRing.Proofs.Transparency
import SpscRing.Proofs.Inert
import SpscRing.Proofs.Dropping
import SpscRing.Proofs.HiddenModeSessions
import SpscRing.Proofs.Endings
import SpscRing.Proofs.Backoff
import SpscRing.Proofs.Progress
import SpscRing.Proofs.Budget
import SpscRing.Proofs.Singles
import SpscRing.Proofs.BulkTransfer
import SpscRing.Proofs.Unhindered
import SpscRing.Proofs.Sides
import SpscRing.Proofs.SlotAccess
import SpscRing.Proofs.VirtualWaits
import SpscRing.Proofs.Deadline
import SpscRing.Proofs.AtOnce
import SpscRing.Proofs.Predictions
import SpscRing.Proofs.Balance
import SpscRing.Proofs.Pacings
import SpscRing.Proofs.Recurrence
import SpscRing.Proofs.Congruence
