import BusyWait.LockStep.Chains
import BusyWait.LockStep.Counters
import BusyWait.LockStep.Indices
import BusyWait.LockStep.Locks
import BusyWait.LockStep.Policies
import BusyWait.LockStep.Queues
import BusyWait.LockStep.Words
import BusyWait.Trial.Locks
import BusyWait.Trial.Queues
import BusyWait.Proofs.Crowd
import BusyWait.Proofs.Lock.Stripes
import BusyWait.Proofs.Lock.OneWord
import BusyWait.Proofs.Queue.Alone
import BusyWait.Proofs.Queue.Walks
import BusyWait.Proofs.Queue.Calls
import BusyWait.Proofs.Queue.Fifo
import BusyWait.Proofs.Queue.Iterators
import BusyWait.Proofs.Lock.Counter
import BusyWait.Proofs.Queue.Crew
import BusyWait.Proofs.Queue.Links
import BusyWait.Proofs.Queue.Custody
import BusyWait.Proofs.Queue.Delivery
import BusyWait.Proofs.Lock.Faces
import BusyWait.Proofs.Lock.Writers
import BusyWait.Proofs.Lock.Passage
import BusyWait.Proofs.Stats.Ledger
import BusyWait.Proofs.Lock.Whole
import BusyWait.Proofs.Lock.Runs
import BusyWait.Proofs.Lock.Dues
import BusyWait.Proofs.Decimal.Share
import BusyWait.Proofs.Lock.Accounts
import BusyWait.Proofs.Lock.Mirror
import BusyWait.Proofs.Lock.Variants
import BusyWait.Proofs.Lock.Served
import BusyWait.Proofs.Indices
import BusyWait.Proofs.Lock.Loans
import BusyWait.Proofs.Lock.Beside
import BusyWait.Proofs.Queue.Traffic
import BusyWait.Proofs.Queue.Receipts
import BusyWait.Proofs.Queue.Ownership
import BusyWait.Proofs.Queue.Interrupts
import BusyWait.Proofs.Queue.Deadline
import BusyWait.Proofs.Tiers
import BusyWait.Proofs.Word.Misuse
import BusyWait.Proofs.Queue.Removals
import BusyWait.Proofs.Queue.Matches
import BusyWait.Proofs.Word.Contention
import BusyWait.Proofs.Lock.HalfOpen
import BusyWait.Proofs.Queue.Unaided
