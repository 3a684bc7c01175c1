import BusyWait.Fault
import BusyWait.Thread
import BusyWait.Text.Shape

/-
  BusyWait.Index — numbers that spread threads over slots.

  A counter gives out numbers in order. A thread draws one when it first needs it and
  keeps it until it ends; a number can also be drawn for any other use. The counter is
  64 bits wide and wraps.
-/

namespace BusyWait

structure Index where
  raw : UInt64
  deriving DecidableEq, Repr

namespace Index

/-- The slot of the index in a table of `len` slots. -/
def slot (i : Index) (len : Nat) : Nat := i.raw.toNat % len

def slot? (i : Index) (len : Nat) : Except Fault Nat :=
  if len = 0 then .error .zeroDivisor else .ok (i.slot len)

def shape (i : Index) : Text.Shape := .wrap "ThreadIndex" [.nat i.raw.toNat]

theorem slot_lt (i : Index) {len : Nat} (h : 0 < len) : i.slot len < len := Nat.mod_lt _ h

end Index

/-- The counter, and the index each thread keeps. -/
structure Registry where
  next : UInt64
  kept : Table Index

namespace Registry

def start (next : UInt64) : Registry := ⟨next, .empty⟩

/-- Gives out the next index. -/
def draw (r : Registry) : Registry × Index := ({ r with next := r.next + 1 }, ⟨r.next⟩)

/-- The thread's index, drawn at its first use. -/
def get (r : Registry) (t : Thread) : Registry × Index :=
  match r.kept.get? t with
  | some i => (r, i)
  | none => ({ r.draw.1 with kept := r.kept.set t r.draw.2 }, r.draw.2)

def exit (r : Registry) (t : Thread) : Registry := { r with kept := r.kept.erase t }

theorem get_of_kept {r : Registry} {t : Thread} {i : Index} (h : r.kept.get? t = some i) :
    r.get t = (r, i) := by
  simp [get, h]

theorem kept_get (r : Registry) (t : Thread) : (r.get t).1.kept.get? t = some (r.get t).2 := by
  unfold get
  cases h : r.kept.get? t <;> simp [h]

end Registry

end BusyWait
