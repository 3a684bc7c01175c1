/-
  BusyWait.Stats.Counter — counters of contention and what they add up to.

  A `Size` keeps the number, least, largest and sum of its samples; an `Event` only
  counts. `merge` is what one counter shows of two sets of samples together.
-/

namespace BusyWait

/-- The extent of at least one sample. -/
structure Extent where
  min : Nat
  max : Nat
  total : Nat
  deriving DecidableEq, Repr

def Extent.merge (a b : Extent) : Extent := ⟨Nat.min a.min b.min, Nat.max a.max b.max, a.total + b.total⟩

structure Size where
  /-- Missing as long as there is no sample. -/
  extent : Option Extent
  count : Nat
  deriving DecidableEq, Repr

namespace Size

def empty : Size := ⟨none, 0⟩

def total (s : Size) : Nat := (s.extent.map (·.total)).getD 0

def max? (s : Size) : Option Nat := s.extent.map (·.max)

def min? (s : Size) : Option Nat := s.extent.map (·.min)

def record (s : Size) (n : Nat) : Size :=
  ⟨some (match s.extent with
    | some e => ⟨Nat.min e.min n, Nat.max e.max n, e.total + n⟩
    | none => ⟨n, n, n⟩), s.count + 1⟩

def merge (s t : Size) : Size :=
  ⟨match s.extent, t.extent with
    | some a, some b => some (a.merge b)
    | some a, none => some a
    | none, b => b, s.count + t.count⟩

@[simp] theorem merge_empty (s : Size) : s.merge .empty = s := by
  rcases s with ⟨_ | _, _⟩ <;> rfl

@[simp] theorem empty_merge (s : Size) : Size.empty.merge s = s := by
  rcases s with ⟨_ | _, n⟩ <;> simp [empty, merge]

end Size

structure Event where
  count : Nat
  deriving DecidableEq, Repr

namespace Event

def none : Event := ⟨0⟩

def happened (e : Event) : Event := ⟨e.count + 1⟩

def merge (e f : Event) : Event := ⟨e.count + f.count⟩

end Event

end BusyWait
