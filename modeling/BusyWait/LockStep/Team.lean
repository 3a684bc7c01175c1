import BusyWait.Index
import BusyWait.Stats.Book
import BusyWait.Stats.Summary

/-
  BusyWait.LockStep.Team — the threads of a lock-step run.

  In a lock-step run one operation ends, or can only wait, before the next begins. A
  thread comes to life at its first operation and lives until it exits; its own counters
  and its index go with it. A run declines an operation that it could not finish: a
  refused operation does nothing.
-/

namespace BusyWait.LockStep

inductive Refusal where
  | wouldHang
  | threadWaiting
  | writerWaiting
  | noSuchGuard
  | notOfThisLock
  | unknown
  | tooLong
  | noSuchIterator
  | consumerWaiting
  | queueInUse
  | queueDropped
  | nothingHeld
  deriving DecidableEq, Repr

def Refusal.message : Refusal → String
  | .wouldHang => "would hang"
  | .threadWaiting => "thread is waiting"
  | .writerWaiting => "a writer is waiting"
  | .noSuchGuard => "no such guard"
  | .notOfThisLock => "not an operation of this lock"
  | .unknown => "unknown op"
  | .tooLong => "too long"
  | .noSuchIterator => "no such iterator"
  | .consumerWaiting => "another consumer is waiting"
  | .queueInUse => "queue is in use"
  | .queueDropped => "queue is dropped"
  | .nothingHeld => "nothing is held"

/-- An operation on the counters. -/
inductive Tally where
  | flush
  | counts
  | debug (alt : Bool)
  | summary
  deriving DecidableEq, Repr

inductive TallyReply where
  | flushed
  | counts (s : Stats)
  | text (s : String)
  deriving DecidableEq, Repr

structure Team where
  alive : List Thread
  registry : Registry
  book : Book

namespace Team

def start : Team := ⟨[], .start 0, .empty⟩

/-- The thread comes to life, if it has not. -/
def join (m : Team) (t : Thread) : Team := { m with alive := m.alive.insert t }

/-- The thread ends; the answer is whether there was one. -/
def exit (m : Team) (t : Thread) : Team × Bool :=
  if m.alive.contains t then (⟨m.alive.erase t, m.registry.exit t, m.book.exit t⟩, true) else (m, false)

def note (m : Team) (t : Thread) (ns : List Note) : Team := { m with book := m.book.notes t ns }

/-- The thread's index. -/
def index (m : Team) (t : Thread) : Team × Index :=
  let (r, i) := m.registry.get t
  ({ m with registry := r }, i)

def drawIndex (m : Team) : Team × Index :=
  let (r, i) := m.registry.draw
  ({ m with registry := r }, i)

def tally (m : Team) (t : Thread) : Tally → Team × TallyReply
  | .flush => ({ m with book := m.book.flush t }, .flushed)
  | .counts => (m, .counts m.book.global)
  | .debug alt => (m, .text (m.book.global.shape.text alt))
  | .summary => (m, .text m.book.global.summary)

end Team

end BusyWait.LockStep
