/-
  BusyWait.Thread — threads by name, and what is kept for each of them.
-/

namespace BusyWait

/-- Threads are named by numbers; the name of one that has ended can be used again. -/
abbrev Thread := Nat

/-- At most one `α` for each thread. -/
structure Table (α : Type) where
  entries : List (Thread × α)

namespace Table

variable {α : Type}

def empty : Table α := ⟨[]⟩

def get? (m : Table α) (t : Thread) : Option α := m.entries.lookup t

def contains (m : Table α) (t : Thread) : Bool := (m.get? t).isSome

def erase (m : Table α) (t : Thread) : Table α := ⟨m.entries.filter (·.1 != t)⟩

def set (m : Table α) (t : Thread) (a : α) : Table α := ⟨(t, a) :: (m.erase t).entries⟩

@[simp] theorem get?_empty (t : Thread) : (empty : Table α).get? t = none := rfl

@[simp] theorem get?_erase (m : Table α) (t u : Thread) :
    (m.erase t).get? u = if t = u then none else m.get? u := by
  unfold erase get?
  induction m.entries with
  | nil => simp
  | cons e es ih =>
    obtain ⟨k, a⟩ := e
    by_cases hk : k = t
    · by_cases hu : t = u
      · simpa [hk, hu] using fun _ _ _ h e => h e.symm
      · have : (u == t) = false := by simpa using fun h => hu h.symm
        simp [hk, hu, ih, List.lookup_cons, this]
    · by_cases hu : u = k
      · have : ¬ t = k := fun h => hk h.symm
        simp [hk, hu, this]
      · have : (u == k) = false := by simpa using hu
        simp [hk, ih, List.lookup_cons, this]

@[simp] theorem get?_set (m : Table α) (t u : Thread) (a : α) :
    (m.set t a).get? u = if t = u then some a else m.get? u := by
  have h := get?_erase m t u
  unfold get? at h
  unfold set get?
  simp only [List.lookup_cons, h]
  by_cases hu : u = t
  · simp [hu]
  · have hb : (u == t) = false := by simpa using hu
    have ht : ¬ t = u := fun h => hu h.symm
    simp [hb, ht]

end Table

end BusyWait
