import BusyWait.Progress

/-
  BusyWait.Proofs.Solo — operations that run with nobody else acting, in parts.

  `Reaches n s t e`: within `n` steps, none of them from where the task halts, the task
  `t` gets from `s` to `e`, a result or a task that is left to do. Parts are put together
  by `Reaches.trans`, and a part of an operation becomes the operation's by `Reaches.embed`.

  - `Reaches.alone_done`, `Reaches.alone_halt`: with enough fuel, `alone` ends there.
  - `alone_ends`: what holds at the end, by an invariant that bounds the steps.
  - `alone_keeps`: what every step keeps, however far the operation gets.
-/

namespace BusyWait

variable {σ τ ρ : Type} {step : σ → τ → σ × Progress τ ρ} {halt : σ → τ → Bool}

inductive Reaches (step : σ → τ → σ × Progress τ ρ) (halt : σ → τ → Bool) : Nat → σ → τ → σ × Progress τ ρ → Prop
  | here {n : Nat} {s : σ} {t : τ} : Reaches step halt n s t (s, .more t)
  | last {n : Nat} {s s' : σ} {t : τ} {r : ρ} (hh : halt s t = false) (hs : step s t = (s', .done r)) :
      Reaches step halt (n + 1) s t (s', .done r)
  | next {n : Nat} {s s' : σ} {t t' : τ} {e : σ × Progress τ ρ} (hh : halt s t = false)
      (hs : step s t = (s', .more t')) (he : Reaches step halt n s' t' e) : Reaches step halt (n + 1) s t e

/-- What a step of a part is for the whole; where the part ends, the whole does `k`. -/
def whole {σ' τ' ρ' : Type} (f : σ → σ') (g : τ → τ') (k : σ → ρ → σ' × Progress τ' ρ') :
    σ × Progress τ ρ → σ' × Progress τ' ρ'
  | (s, .more t) => (f s, .more (g t))
  | (s, .done r) => k s r

namespace Reaches

variable {n m : Nat} {s s' : σ} {t t' : τ} {r : ρ} {e : σ × Progress τ ρ}

theorem mono (h : Reaches step halt n s t e) (hm : n ≤ m) : Reaches step halt m s t e := by
  induction h generalizing m with
  | here => exact .here
  | last hh hs =>
    obtain ⟨k, rfl⟩ := Nat.exists_eq_add_of_le' hm
    exact .last hh hs
  | next hh hs _ ih =>
    obtain ⟨k, rfl⟩ := Nat.exists_eq_add_of_le' (Nat.le_trans (Nat.le_add_left 1 _) hm)
    exact .next hh hs (ih (by omega))

/-- One step, whatever it leaves. -/
theorem single (hh : halt s t = false) : Reaches step halt 1 s t (step s t) := by
  rcases hs : step s t with ⟨s', t' | r⟩
  · exact .next hh hs .here
  · exact .last hh hs

theorem trans (h : Reaches step halt n s t (s', .more t')) (h' : Reaches step halt m s' t' e) :
    Reaches step halt (n + m) s t e := by
  generalize he : (s', Progress.more t') = e' at h
  induction h with
  | here =>
    cases he
    exact h'.mono (by omega)
  | last => cases he
  | next hh hs _ ih =>
    rw [Nat.add_right_comm]
    exact .next hh hs (ih he)

/-- The accesses of a part are accesses of the whole. -/
theorem embed {σ' τ' ρ' : Type} (step' : σ' → τ' → σ' × Progress τ' ρ') (halt' : σ' → τ' → Bool) (f : σ → σ')
    (g : τ → τ') (k : σ → ρ → σ' × Progress τ' ρ') (hh : ∀ s t, halt' (f s) (g t) = halt s t)
    (hs : ∀ s t, step' (f s) (g t) = whole f g k (step s t)) (h : Reaches step halt n s t e) :
    Reaches step' halt' n (f s) (g t) (whole f g k e) := by
  induction h with
  | here => exact .here
  | @last n s s' t r hh' hs' =>
    rw [← hs', ← hs]
    exact (single (by rw [hh, hh'])).mono (by omega)
  | @next n s s' t t' e hh' hs' _ ih => exact .next (by rw [hh, hh']) (by rw [hs, hs']; rfl) ih

/-- Where a task halts it stays. -/
theorem alone_halt (h : Reaches step halt n s t (s', .more t')) (hh : halt s' t' = true) (hm : n ≤ m) :
    alone step halt m s t = (s', .more t') := by
  generalize he : (s', Progress.more t') = e at h
  induction h generalizing m with
  | here =>
    cases he
    exact alone_of_halt hh
  | last => cases he
  | next hh' hs _ ih =>
    obtain ⟨k, rfl⟩ := Nat.exists_eq_add_of_le' (Nat.le_trans (Nat.le_add_left 1 _) hm)
    rw [alone_succ_more hh' hs]
    exact ih (by omega) he

theorem alone_done (h : Reaches step halt n s t (s', .done r)) (hm : n ≤ m) :
    alone step halt m s t = (s', .done r) := by
  generalize he : (s', Progress.done r) = e at h
  induction h generalizing m with
  | here => cases he
  | last hh hs =>
    cases he
    obtain ⟨k, rfl⟩ := Nat.exists_eq_add_of_le' (Nat.le_trans (Nat.le_add_left 1 _) hm)
    exact alone_succ_done hh hs
  | next hh hs _ ih =>
    obtain ⟨k, rfl⟩ := Nat.exists_eq_add_of_le' (Nat.le_trans (Nat.le_add_left 1 _) hm)
    rw [alone_succ_more hh hs]
    exact ih (by omega) he

end Reaches

/-- The task has come to its end in `E`, or one step leads there, or to `J` with fewer steps left than `n`. -/
inductive Onward (step : σ → τ → σ × Progress τ ρ) (halt : σ → τ → Bool) (J : Nat → σ → τ → Prop)
    (E : σ × Progress τ ρ → Prop) (n : Nat) (s : σ) (t : τ) : Prop
  | halts (hh : halt s t = true) (he : E (s, .more t))
  | goes {m : Nat} {s' : σ} {t' : τ} (hh : halt s t = false) (hs : step s t = (s', .more t')) (hm : m < n)
      (hj : J m s' t')
  | ends {s' : σ} {r : ρ} (hh : halt s t = false) (hs : step s t = (s', .done r)) (hn : 0 < n) (he : E (s', .done r))

/-- An invariant `J n`, of tasks that take at most `n` more steps, leads to `E`. -/
theorem alone_ends {J : Nat → σ → τ → Prop} {E : σ × Progress τ ρ → Prop}
    (hJ : ∀ {n s t}, J n s t → Onward step halt J E n s t) {n fuel : Nat} {s : σ} {t : τ} (h : J n s t)
    (hn : n ≤ fuel) : E (alone step halt fuel s t) := by
  induction fuel generalizing n s t with
  | zero =>
    cases hJ h with
    | halts _ he => exact he
    | goes _ _ hm => omega
    | ends _ _ hpos => omega
  | succ fuel ih =>
    cases hJ h with
    | halts hh he =>
      rw [alone_of_halt hh]
      exact he
    | goes hh hs hm hj =>
      rw [alone_succ_more hh hs]
      exact ih hj (by omega)
    | ends hh hs _ he =>
      rw [alone_succ_done hh hs]
      exact he

/-- What every step keeps of the state and of what is left to do holds at the end. -/
theorem alone_keeps {I : σ → Prop} {P : Progress τ ρ → Prop}
    (hstep : ∀ {s t}, I s → P (.more t) → I (step s t).1 ∧ P (step s t).2) {fuel : Nat} {s : σ} {t : τ} (hs : I s)
    (ht : P (.more t)) : I (alone step halt fuel s t).1 ∧ P (alone step halt fuel s t).2 := by
  induction fuel generalizing s t with
  | zero => exact ⟨hs, ht⟩
  | succ fuel ih =>
    unfold alone
    by_cases hh : halt s t = true
    · rw [if_pos hh]
      exact ⟨hs, ht⟩
    · rw [if_neg hh]
      have hnext := hstep hs ht
      generalize step s t = e at hnext
      obtain ⟨s', t' | r⟩ := e
      · exact ih hnext.1 hnext.2
      · exact hnext

end BusyWait
