import BusyWait.Policy
import BusyWait.Proofs.Stats.Ledger

/-
  BusyWait.Proofs.Tiers — what a policy makes of attempts that go on failing.

  A tier is told in whole numbers, where nothing wraps and nothing stops: the cycles are a
  product cut at the largest 32-bit number, and an attempt yields as long as it is below
  the sum of both counts (`tier_cases`). Where that sum is beyond 32 bits the last attempt
  of all is below it and sleeps nevertheless; every other attempt is told by the sum.

  So tiers follow each other in one order, and a first sleeping attempt is always there:
  it is where the policy's patience ends (`sleeps_iff`). A wait records the event of its
  tier and is made in it, and that attempt, and no other, is logged (`wait_eq`).

  - `tiers_graded`: all of it for every policy, and for waits one after the other.
-/

namespace BusyWait

/-- Spinning is before yielding, and that before sleeping. -/
def Tier.rank : Tier → Nat
  | .spin _ => 0
  | .yield => 1
  | .sleep _ => 2

namespace Policy

/-- The counters after these waits of threads, one after the other. -/
def waits (p : Policy) (b : Book) (calls : List (Thread × UInt32)) : Book :=
  calls.foldl (fun b c => b.notes c.1 (p.wait c.2)) b

/-- What waits for these attempts log. -/
def logged (p : Policy) (attempts : List UInt32) : List Line := Note.lines (attempts.flatMap p.wait)

/-- The last attempt that 32 bits can count, where they do not fit the sum of the counts. -/
def Overlong (p : Policy) (attempt : UInt32) : Prop :=
  attempt.toNat = 0xFFFFFFFF ∧ 0xFFFFFFFF < p.spinCount.toNat + p.yieldCount.toNat

variable (p : Policy)

/-! ## One attempt -/

theorem toNat_patience : p.patience.toNat = min (p.spinCount.toNat + p.yieldCount.toNat) 0xFFFFFFFF :=
  toNat_satAdd ..

/-- Below the patience an attempt is below the sum, and the last of all is not. -/
theorem lt_patience_iff (a : UInt32) :
    a < p.patience ↔ a.toNat < p.spinCount.toNat + p.yieldCount.toNat ∧ ¬p.Overlong a := by
  have ha := a.toNat_lt
  rw [UInt32.lt_iff_toNat_lt, toNat_patience, Overlong]
  omega

/-- Before the last attempt there is a next one. -/
theorem toNat_succ {a b : UInt32} (h : a < b) : (a + 1).toNat = a.toNat + 1 := by
  have hb := b.toNat_lt
  rw [UInt32.lt_iff_toNat_lt] at h
  rw [UInt32.toNat_add, UInt32.toNat_one]
  omega

theorem tier_cases (a : UInt32) :
    (a < p.spinCount ∧ p.tier a = .spin (satMul p.spinCycles (a + 1))) ∨
      (¬a < p.spinCount ∧ a < p.patience ∧ p.tier a = .yield) ∨
      (¬a < p.spinCount ∧ ¬a < p.patience ∧ p.tier a = .sleep p.sleep) := by
  unfold tier
  by_cases hs : a < p.spinCount
  · exact .inl ⟨hs, if_pos hs⟩
  rw [if_neg hs]
  by_cases hy : a < p.patience
  · exact .inr (.inl ⟨hs, hy, if_pos hy⟩)
  · exact .inr (.inr ⟨hs, hy, if_neg hy⟩)

theorem spinCount_le_patience : p.spinCount.toNat ≤ p.patience.toNat := by
  have hs := p.spinCount.toNat_lt
  rw [toNat_patience]
  omega

theorem spins_iff (a n : UInt32) : p.tier a = .spin n ↔
    a.toNat < p.spinCount.toNat ∧ n.toNat = min (p.spinCycles.toNat * (a.toNat + 1)) 0xFFFFFFFF := by
  rw [← UInt32.lt_iff_toNat_lt]
  rcases p.tier_cases a with ⟨hs, ht⟩ | ⟨hs, -, ht⟩ | ⟨hs, -, ht⟩
  · rw [ht, Tier.spin.injEq, ← UInt32.toNat_inj, toNat_satMul, toNat_succ hs]
    exact ⟨fun hn => ⟨hs, hn.symm⟩, fun hn => hn.2.symm⟩
  · simp [ht, hs]
  · simp [ht, hs]

theorem yields_iff (a : UInt32) : p.tier a = .yield ↔
    p.spinCount.toNat ≤ a.toNat ∧ a.toNat < p.spinCount.toNat + p.yieldCount.toNat ∧ ¬p.Overlong a := by
  rw [← lt_patience_iff, ← Nat.not_lt, ← UInt32.lt_iff_toNat_lt]
  rcases p.tier_cases a with ⟨hs, ht⟩ | ⟨hs, hy, ht⟩ | ⟨hs, hy, ht⟩
  · simp [ht, hs]
  · simp [ht, hs, hy]
  · simp [ht, hs, hy]

/-- The sleeping attempts are those from the patience on. -/
theorem sleeps_iff_patience (a : UInt32) (d : Duration) : p.tier a = .sleep d ↔ d = p.sleep ∧ p.patience ≤ a := by
  have hle := p.spinCount_le_patience
  rw [UInt32.le_iff_toNat_le]
  rcases p.tier_cases a with ⟨hs, ht⟩ | ⟨-, hy, ht⟩ | ⟨-, hy, ht⟩
  · rw [UInt32.lt_iff_toNat_lt] at hs
    simp only [ht, reduceCtorEq, false_iff]
    omega
  · rw [UInt32.lt_iff_toNat_lt] at hy
    simp only [ht, reduceCtorEq, false_iff]
    omega
  · rw [UInt32.lt_iff_toNat_lt] at hy
    rw [ht, Tier.sleep.injEq]
    exact ⟨fun hd => ⟨hd.symm, Nat.not_lt.mp hy⟩, fun hd => hd.1.symm⟩

theorem sleeps_iff (a : UInt32) (d : Duration) : p.tier a = .sleep d ↔
    d = p.sleep ∧ (p.spinCount.toNat + p.yieldCount.toNat ≤ a.toNat ∨ p.Overlong a) := by
  have hlt := p.lt_patience_iff a
  rw [UInt32.lt_iff_toNat_lt] at hlt
  rw [sleeps_iff_patience, UInt32.le_iff_toNat_le, ← Nat.not_lt, hlt]
  exact and_congr_right fun _ => by
    rw [not_and_or, not_not, Nat.not_lt]

/-! ## Attempt after attempt -/

theorem rank_mono {a b : UInt32} (h : a ≤ b) : (p.tier a).rank ≤ (p.tier b).rank := by
  rw [UInt32.le_iff_toNat_le] at h
  rcases p.tier_cases a with ⟨-, ha⟩ | ⟨hs, -, ha⟩ | ⟨-, hy, ha⟩
  · rw [ha]
    exact Nat.zero_le _
  · rw [UInt32.lt_iff_toNat_lt] at hs
    rcases p.tier_cases b with ⟨hb, -⟩ | ⟨-, -, hb⟩ | ⟨-, -, hb⟩
    · rw [UInt32.lt_iff_toNat_lt] at hb
      omega
    · exact Nat.le_of_eq (by rw [ha, hb])
    · rw [ha, hb]
      exact Nat.le_succ 1
  · have hb : p.tier b = .sleep p.sleep := by
      rw [UInt32.lt_iff_toNat_lt] at hy
      exact (p.sleeps_iff_patience b p.sleep).mpr ⟨rfl, by rw [UInt32.le_iff_toNat_le]; omega⟩
    exact Nat.le_of_eq (by rw [ha, hb])

theorem cycles_mono {a b m n : UInt32} (h : a ≤ b) (ha : p.tier a = .spin m) (hb : p.tier b = .spin n) : m ≤ n := by
  rw [UInt32.le_iff_toNat_le] at h ⊢
  have hle : p.spinCycles.toNat * (a.toNat + 1) ≤ p.spinCycles.toNat * (b.toNat + 1) :=
    Nat.mul_le_mul_left _ (Nat.succ_le_succ h)
  rw [((p.spins_iff a m).mp ha).2, ((p.spins_iff b n).mp hb).2]
  omega

/-! ## What waits leave behind -/

/-- A wait records the event of its tier, is logged where the patience ends, and is made in its tier. -/
theorem wait_eq (a : UInt32) : p.wait a = .event (p.tier a).event ::
    ((if a = p.patience then [.line (.escalated a)] else []) ++ [.waited (p.tier a)]) := by
  have hwake : a = p.patience → p.tier a = .sleep p.sleep := by
    rintro rfl
    exact (p.sleeps_iff_patience _ _).mpr ⟨rfl, UInt32.le_refl _⟩
  unfold wait
  split
  · rename_i d hd
    rw [hd]
  · rename_i hd
    rw [if_neg fun he => hd _ (hwake he)]
    rfl

theorem samples_wait (a : UInt32) : Note.samples (p.wait a) = [.event (p.tier a).event] := by
  rw [wait_eq]
  split <;> rfl

theorem tiers_wait (a : UInt32) : Note.tiers (p.wait a) = [p.tier a] := by
  rw [wait_eq]
  split <;> rfl

/-- Waits one after the other record the events of their tiers. -/
theorem samples_waits (attempts : List UInt32) :
    Note.samples (attempts.flatMap p.wait) = attempts.map fun a => Sample.event (p.tier a).event := by
  induction attempts with
  | nil => rfl
  | cons a attempts ih => rw [List.flatMap_cons, Note.samples_append, p.samples_wait, ih]; rfl

/-- And they are made in them. -/
theorem tiers_waits (attempts : List UInt32) : Note.tiers (attempts.flatMap p.wait) = attempts.map p.tier := by
  induction attempts with
  | nil => rfl
  | cons a attempts ih => rw [List.flatMap_cons, Note.tiers_append, p.tiers_wait, ih]; rfl

theorem lines_wait (a : UInt32) : Note.lines (p.wait a) = if a = p.patience then [.escalated a] else [] := by
  rw [wait_eq]
  split <;> rfl

theorem logged_eq (attempts : List UInt32) :
    p.logged attempts = (attempts.filter (· = p.patience)).map .escalated := by
  induction attempts with
  | nil => rfl
  | cons a as ih =>
    have hcons : p.logged (a :: as) = Note.lines (p.wait a) ++ p.logged as := List.filterMap_append
    rw [hcons, ih, lines_wait]
    by_cases ha : a = p.patience <;> simp [ha]

/-- What waits for these attempts make of counters: their tiers are counted, and nothing else is. -/
structure Recorded (p : Policy) (attempts : List UInt32) (s s' : Stats) : Prop where
  spins : s'.backoffSpin.count = s.backoffSpin.count + attempts.countP fun a => (p.tier a).rank = 0
  yields : s'.backoffYield.count = s.backoffYield.count + attempts.countP fun a => (p.tier a).rank = 1
  sleeps : s'.backoffSleep.count = s.backoffSleep.count + attempts.countP fun a => (p.tier a).rank = 2
  others : s' = { s with
    backoffSpin := s'.backoffSpin, backoffYield := s'.backoffYield, backoffSleep := s'.backoffSleep }

theorem recorded_nil (s : Stats) : p.Recorded [] s s := ⟨rfl, rfl, rfl, rfl⟩

/-- One wait more. -/
theorem recorded_cons {a : UInt32} {attempts : List UInt32} {s s' : Stats}
    (h : p.Recorded attempts ((p.wait a).foldl Stats.note s) s') : p.Recorded (a :: attempts) s s' := by
  have hone : (p.wait a).foldl Stats.note s = s.happened (p.tier a).event := by
    rw [Stats.foldl_note, samples_wait]
    rfl
  rw [hone] at h
  have count : ∀ {m n k x : Nat}, m = n + x + attempts.countP (fun a => (p.tier a).rank = k) →
      x = (if (p.tier a).rank = k then 1 else 0) →
      m = n + (a :: attempts).countP fun a => (p.tier a).rank = k := by
    intro m n k x hm hx
    rw [hm, hx, List.countP_cons]
    simp only [decide_eq_true_eq]
    omega
  cases ht : p.tier a with
  | spin n =>
    rw [ht] at h count
    exact ⟨count (x := 1) h.spins rfl, count (x := 0) h.yields rfl, count (x := 0) h.sleeps rfl, h.others⟩
  | yield =>
    rw [ht] at h count
    exact ⟨count (x := 0) h.spins rfl, count (x := 1) h.yields rfl, count (x := 0) h.sleeps rfl, h.others⟩
  | sleep d =>
    rw [ht] at h count
    exact ⟨count (x := 0) h.spins rfl, count (x := 0) h.yields rfl, count (x := 1) h.sleeps rfl, h.others⟩

/-- Each thread's waits are in its own counters. -/
theorem recorded_waits (b : Book) (calls : List (Thread × UInt32)) (t : Thread) :
    p.Recorded ((calls.filter (·.1 = t)).map (·.2)) (b.ownOf t) ((p.waits b calls).ownOf t) := by
  induction calls generalizing b with
  | nil => exact p.recorded_nil _
  | cons c calls ih =>
    have hrest := ih (b.notes c.1 (p.wait c.2))
    rw [Book.ownOf_notes] at hrest
    by_cases hc : c.1 = t
    · rw [if_pos hc.symm, hc] at hrest
      rw [List.filter_cons_of_pos (by simpa using hc), List.map_cons,
        show p.waits b (c :: calls) = p.waits (b.notes t (p.wait c.2)) calls from hc ▸ rfl]
      exact p.recorded_cons hrest
    · rw [if_neg (Ne.symm hc)] at hrest
      rw [List.filter_cons_of_neg (by simpa using hc)]
      exact hrest

theorem global_waits (b : Book) (calls : List (Thread × UInt32)) : (p.waits b calls).global = b.global := by
  induction calls generalizing b with
  | nil => rfl
  | cons c calls ih => exact (ih _).trans (Book.global_notes b c.1 _)

/-- What a policy makes of attempts, and of waits for them. -/
structure Graded (p : Policy) : Prop where
  /-- The number of an attempt that spins has a successor, so that no sum or product wraps on the way to a tier. -/
  fits : ∀ a, a < p.spinCount → (a + 1).toNat = a.toNat + 1
  spins : ∀ a n, p.tier a = .spin n ↔
    a.toNat < p.spinCount.toNat ∧ n.toNat = min (p.spinCycles.toNat * (a.toNat + 1)) 0xFFFFFFFF
  /-- The last attempt of all sleeps where the sum of the counts is beyond it. -/
  yields : ∀ a, p.tier a = .yield ↔
    p.spinCount.toNat ≤ a.toNat ∧ a.toNat < p.spinCount.toNat + p.yieldCount.toNat ∧ ¬p.Overlong a
  sleeps : ∀ a d, p.tier a = .sleep d ↔
    d = p.sleep ∧ (p.spinCount.toNat + p.yieldCount.toNat ≤ a.toNat ∨ p.Overlong a)
  onward : ∀ a b, a ≤ b → (p.tier a).rank ≤ (p.tier b).rank
  longer : ∀ a b m n, a ≤ b → p.tier a = .spin m → p.tier b = .spin n → m ≤ n
  /-- A wait is made in the tier of its attempt. -/
  waited : ∀ attempts : List UInt32, Note.tiers (attempts.flatMap p.wait) = attempts.map p.tier
  /-- Each thread has recorded its own waits, and what was merged before is as it was. -/
  recorded : ∀ (b : Book) (calls : List (Thread × UInt32)), (p.waits b calls).global = b.global ∧
    ∀ t, p.Recorded ((calls.filter (·.1 = t)).map (·.2)) (b.ownOf t) ((p.waits b calls).ownOf t)
  /-- There is a least attempt that sleeps, and just the waits for it are logged. -/
  escalates : ∃ least, p.tier least = .sleep p.sleep ∧ (∀ a d, p.tier a = .sleep d → least ≤ a) ∧
    ∀ attempts, p.logged attempts = (attempts.filter (· = least)).map .escalated

/-- Whatever the counts and cycles of a policy, and whatever it is asked. -/
theorem tiers_graded (p : Policy) : p.Graded where
  fits _ := toNat_succ
  spins := p.spins_iff
  yields := p.yields_iff
  sleeps := p.sleeps_iff
  onward _ _ := p.rank_mono
  longer _ _ _ _ := p.cycles_mono
  waited := p.tiers_waits
  recorded b calls := ⟨p.global_waits b calls, p.recorded_waits b calls⟩
  escalates := by
    refine ⟨p.patience, (p.sleeps_iff_patience _ _).mpr ⟨rfl, UInt32.le_refl _⟩, ?_, p.logged_eq⟩
    intro a d ha
    exact ((p.sleeps_iff_patience a d).mp ha).2

/-- Both counts at their largest: the last attempt is below their sum, and sleeps. -/
example : (⟨3, 0xFFFFFFFF, 0xFFFFFFFF, .ofMillis 1⟩ : Policy).tier 0xFFFFFFFF = .sleep (.ofMillis 1) := by decide

end Policy

end BusyWait
