/-
  BusyWait.Progress — operations made of single accesses.

  An operation is a step function: each step is one indivisible access to shared memory,
  together with what its thread then decides without looking again. A step leaves more
  to do or a result. Threads interleave by taking steps in any order; `alone` is the
  run in which nobody else acts.
-/

namespace BusyWait

universe u

inductive Progress (τ ρ : Type u) where
  | more (t : τ)
  | done (r : ρ)
  deriving DecidableEq, Repr

namespace Progress

variable {τ τ' ρ ρ' : Type u}

def map (f : τ → τ') (g : ρ → ρ') : Progress τ ρ → Progress τ' ρ'
  | .more t => .more (f t)
  | .done r => .done (g r)

def result? : Progress τ ρ → Option ρ
  | .more _ => none
  | .done r => some r

@[simp] theorem map_more (f : τ → τ') (g : ρ → ρ') (t : τ) : (Progress.more t).map f g = .more (f t) := rfl
@[simp] theorem map_done (f : τ → τ') (g : ρ → ρ') (r : ρ) : (Progress.done r).map f g = .done (g r) := rfl

end Progress

variable {σ τ ρ : Type u}

/-- Steps until a result, until `halt` (the operation can only wait), or for `fuel` steps. -/
def alone (step : σ → τ → σ × Progress τ ρ) (halt : σ → τ → Bool) : Nat → σ → τ → σ × Progress τ ρ
  | 0, s, t => (s, .more t)
  | fuel + 1, s, t =>
    if halt s t then (s, .more t)
    else match step s t with
      | (s, .more t) => alone step halt fuel s t
      | (s, .done r) => (s, .done r)

section
variable {step : σ → τ → σ × Progress τ ρ} {halt : σ → τ → Bool} {s s' : σ} {t t' : τ} {r : ρ} {n : Nat}

theorem alone_of_halt (h : halt s t = true) : alone step halt n s t = (s, .more t) := by
  cases n <;> simp [alone, h]

theorem alone_succ_more (h : halt s t = false) (hs : step s t = (s', .more t')) :
    alone step halt (n + 1) s t = alone step halt n s' t' := by
  simp [alone, h, hs]

theorem alone_succ_done (h : halt s t = false) (hs : step s t = (s', .done r)) :
    alone step halt (n + 1) s t = (s', .done r) := by
  simp [alone, h, hs]

/-- A result stays the result under more fuel. -/
theorem alone_mono {m : Nat} (h : alone step halt n s t = (s', .done r)) :
    alone step halt (n + m) s t = (s', .done r) := by
  induction n generalizing s t with
  | zero => simp [alone] at h
  | succ n ih =>
    rw [Nat.add_right_comm]
    unfold alone at h ⊢
    split at h
    · simp at h
    · rename_i hh
      simp only [hh]
      split at h
      · rename_i s₁ t₁ hs; simpa [hs] using ih h
      · rename_i s₁ r₁ hs; simpa [hs] using h

end

end BusyWait
