import BusyWait.Note
import BusyWait.Thread

/-
  BusyWait.Stats.Book — each thread's own counters, and the global ones.

  A thread records into its own counters. `flush` merges them into the global ones and
  starts them anew; the end of a thread does the same, and a later thread of the same
  name begins with none.
-/

namespace BusyWait

structure Book where
  global : Stats
  own : Table Stats

namespace Book

def empty : Book := ⟨.empty, .empty⟩

def ownOf (b : Book) (t : Thread) : Stats := (b.own.get? t).getD .empty

def note (b : Book) (t : Thread) (n : Note) : Book := { b with own := b.own.set t ((b.ownOf t).note n) }

def notes (b : Book) (t : Thread) (ns : List Note) : Book := ns.foldl (·.note t) b

def flush (b : Book) (t : Thread) : Book := ⟨b.global.merge (b.ownOf t), b.own.erase t⟩

/-- The thread ends. -/
def exit (b : Book) (t : Thread) : Book := b.flush t

@[simp] theorem notes_nil (b : Book) (t : Thread) : b.notes t [] = b := rfl

@[simp] theorem notes_cons (b : Book) (t : Thread) (n : Note) (ns : List Note) :
    b.notes t (n :: ns) = (b.note t n).notes t ns := rfl

@[simp] theorem global_note (b : Book) (t : Thread) (n : Note) : (b.note t n).global = b.global := rfl

end Book

end BusyWait
