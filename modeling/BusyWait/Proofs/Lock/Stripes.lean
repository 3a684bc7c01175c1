import BusyWait.Proofs.Crowd

/-
  BusyWait.Proofs.Lock.Stripes — a striped lock among any number of threads.

  The invariant (`Booked`): every word is the number of the read locks of its stripe that
  are out, plus the writer's bit if the writer has set it there. A writer that blocks has
  set it on every stripe before the one it is at, and on that one once its swap has
  succeeded; a writer that unblocks still has it from the stripe it is at on. Where it
  is past a stripe in blocking nobody is counted, and nobody can be counted again before
  the bit is cleared (`readersOn_step_le`).

  - `run_booked`: it holds after every run.
  - `stripes_exclude`: what follows for readers and the writer, stripe by stripe.
-/

namespace BusyWait.StripedLock

/-! ## What the writer has set -/

/-- A writer at this task has set the bit of word `j`. -/
def Task.raised : Task → Nat → Bool
  | .block k s _, j => j < k || (j == k && s.raised)
  | .unblock k, j => k ≤ j
  | _, _ => false

/-- A writer at this task has word `j` for itself. -/
def Task.owns : Task → Nat → Bool
  | .block k _ _, j => j < k
  | .unblock k, j => k ≤ j
  | _, _ => false

abbrev Party := Crowd StripedLock Task

def raised (r : Crowd.Tenure Task) (j : Nat) : Bool := r.holds (·.raised j)

def owns (r : Crowd.Tenure Task) (j : Nat) : Bool := r.holds (·.owns j)

/-- The indices of stripe `j`. -/
def maps (l : StripedLock) (j : Nat) (i : Index) : Bool := l.stripeOf i == j

/-- The read locks of stripe `j` that are out. -/
def readersOn (c : Party) (j : Nat) : Nat := c.readersAt (c.lock.maps j)

/-! ## The invariant -/

/-- A call that is where its thread says. -/
def Sound : Option (Crowd.Visit Task) → Prop
  | none => True
  | some (.entering i t) => ∃ e n, t = .enter i e n ∧ e.Fit
  | some (.leaving i t) => t = .leave i

/-- The writer's call is at a stripe of the lock. -/
def Ready (size : Nat) : Crowd.Tenure Task → Prop
  | .blocking t => ∃ k s n, t = .block k s n ∧ k < size
  | .unblocking t => ∃ k, t = .unblock k ∧ k < size
  | _ => True

structure Booked (c : Party) : Prop where
  counts : ∀ j < c.lock.words.size, (c.lock.word j).Counts (readersOn c j) (raised c.tenure j)
  alone : ∀ j < c.lock.words.size, owns c.tenure j = true → readersOn c j = 0
  sound : ∀ v ∈ c.threads, Sound v
  ready : Ready c.lock.words.size c.tenure

theorem owns_raised {r : Crowd.Tenure Task} {j : Nat} (h : owns r j = true) : raised r j = true := by
  have task : ∀ t : Task, t.owns j = true → t.raised j = true := by
    intro t ht
    cases t with
    | block k s n => simp_all [Task.owns, Task.raised]
    | unblock k => exact ht
    | enter i e n => cases ht
    | leave i => cases ht
  cases r with
  | out => cases h
  | inside => rfl
  | blocking t => exact task t h
  | unblocking t => exact task t h
  | broken t => exact task t h

theorem Booked.eq_owned {c : Party} (h : Booked c) {j : Nat} (hj : j < c.lock.words.size)
    (ho : owns c.tenure j = true) : c.lock.word j = .owned :=
  (h.counts j hj).eq_owned_iff.mpr ⟨h.alone j hj ho, owns_raised ho⟩

theorem word_new {n j : Nat} (hj : j < (new n).words.size) : (new n).word j = .free := by
  have hj' : j < n + 1 := by simpa [new] using hj
  simp [new, word, hj']

theorem booked_around (m n : Nat) : Booked (.around m (new n)) := by
  have h0 : ∀ p, (Crowd.around m (new n) : Party).readersAt p = 0 := by
    intro p
    simp [Crowd.readersAt, Crowd.around, List.countP_replicate, Crowd.Visit.leaves]
  refine ⟨?_, ?_, ?_, trivial⟩
  · intro j hj
    rw [readersOn, h0]
    show ((new n).word j).Counts 0 false
    rw [word_new hj]
    exact Word.counts_free
  · intro j _ ho
    cases ho
  · intro v hv
    rw [List.eq_of_mem_replicate hv]
    trivial

/-! ## Words and stripes under a change -/

theorem put_self (l : StripedLock) {k : Nat} (hk : k < l.words.size) : l.put k (l.word k) = l := by
  obtain ⟨ws, pos⟩ := l
  have hk' : k < ws.size := hk
  simp [put, word, Array.setIfInBounds, hk']

theorem maps_of_size {l l' : StripedLock} (h : l'.words.size = l.words.size) (j : Nat) : l'.maps j = l.maps j := by
  funext i
  simp [maps, stripeOf, h]

@[simp] theorem maps_put (l : StripedLock) (k j : Nat) (w : Word) : (l.put k w).maps j = l.maps j :=
  maps_of_size (size_put l k w) j

theorem maps_stripeOf (l : StripedLock) (i : Index) (j : Nat) : l.maps j i = true ↔ l.stripeOf i = j := by
  simp [maps]

/-- A reader's access that counts nobody in or out. -/
theorem Booked.of_same {c c' : Party} (h : Booked c) (hl : c'.lock = c.lock) (ht : c'.tenure = c.tenure)
    (hr : ∀ p, c'.readersAt p = c.readersAt p) (hv : ∀ v ∈ c'.threads, Sound v) : Booked c' := by
  refine ⟨?_, ?_, hv, ?_⟩
  · intro j hj
    simp only [readersOn, hl, ht, hr] at hj ⊢
    exact h.counts j hj
  · intro j hj ho
    simp only [readersOn, hl, ht, hr] at hj ho ⊢
    exact h.alone j hj ho
  · rw [hl, ht]
    exact h.ready

/-- A reader's access that changes the word and the count of one stripe. -/
theorem Booked.of_put {c c' : Party} {q : Nat} {w : Word} (h : Booked c) (hl : c'.lock = c.lock.put q w)
    (hq : q < c.lock.words.size) (ht : c'.tenure = c.tenure)
    (hr : ∀ j, j ≠ q → c'.readersAt (c.lock.maps j) = readersOn c j)
    (hw : w.Counts (c'.readersAt (c.lock.maps q)) (raised c.tenure q)) (ho : owns c.tenure q = false)
    (hv : ∀ v ∈ c'.threads, Sound v) : Booked c' := by
  have hs : c'.lock.words.size = c.lock.words.size := by rw [hl, size_put]
  have hm : ∀ j, readersOn c' j = c'.readersAt (c.lock.maps j) := fun j => by rw [readersOn, hl, maps_put]
  refine ⟨?_, ?_, hv, ?_⟩
  · intro j hj
    rw [hs] at hj
    rw [hm, ht, hl, word_put _ _ _ _ hq]
    by_cases e : q = j
    · subst e
      rw [if_pos rfl]
      exact hw
    · rw [if_neg e, hr j (Ne.symm e)]
      exact h.counts j hj
  · intro j hj hoj
    rw [hs] at hj
    rw [ht] at hoj
    have e : j ≠ q := by
      rintro rfl
      rw [ho] at hoj
      cases hoj
    rw [hm, hr j e]
    exact h.alone j hj hoj
  · rw [hs, ht]
    exact h.ready

/-- An access of the writer. -/
theorem Booked.of_tenure {c : Party} {l : StripedLock} {r : Crowd.Tenure Task} (h : Booked c)
    (hs : l.words.size = c.lock.words.size)
    (hw : ∀ j < c.lock.words.size, (l.word j).Counts (readersOn c j) (raised r j))
    (ho : ∀ j < c.lock.words.size, owns r j = true → readersOn c j = 0) (hr : Ready c.lock.words.size r) :
    Booked { c with lock := l, tenure := r } := by
  have hm : ∀ j, readersOn { c with lock := l, tenure := r } j = readersOn c j := by
    intro j
    show c.readersAt (l.maps j) = c.readersAt (c.lock.maps j)
    rw [maps_of_size hs]
  refine ⟨?_, ?_, h.sound, by rw [hs]; exact hr⟩
  · intro j hj
    rw [hm]
    exact hw j (hs ▸ hj)
  · intro j hj hoj
    rw [hm]
    exact ho j (hs ▸ hj) hoj

/-! ## A reader's access -/

theorem stripeOf_maps (l : StripedLock) (i : Index) : l.maps (l.stripeOf i) i = true := by
  simp [maps]

/-- What an access of a reader's call can be: one that counts nobody in or out, the swap
    that lets a reader into a word with room and no writer, or a release. -/
theorem visit_cases {c : Party} {k : Nat} {v : Crowd.Visit Task} (h : Booked c)
    (hk : c.threads[k]? = some (some v)) :
    (∃ i t v', v = .entering i t ∧ c.visit k v = c.setThread k v' ∧ Sound v' ∧ ∀ p, Crowd.Visit.leaves p v' = false) ∨
      (∃ i t, v = .entering i t ∧ (c.lock.word (c.lock.stripeOf i)).writerPending = false ∧
        (c.lock.word (c.lock.stripeOf i)).readers < Word.maxReaders ∧
        c.visit k v = { c.setThread k none with
          lock := c.lock.put (c.lock.stripeOf i) (c.lock.word (c.lock.stripeOf i)).enter, held := i :: c.held }) ∨
      ∃ i, v = .leaving i (.leave i) ∧
        c.visit k v = { c.setThread k none with
          lock := c.lock.put (c.lock.stripeOf i) (c.lock.word (c.lock.stripeOf i)).leave } := by
  have hv := h.sound _ (List.mem_of_getElem? hk)
  cases v with
  | entering i t =>
    obtain ⟨e, n, rfl, he⟩ := hv
    have hself := put_self c.lock (stripeOf_lt c.lock i)
    rcases Entry.step_cases he (c.lock.word (c.lock.stripeOf i)) with ⟨e', hs, he'⟩ | hs | ⟨f, hs⟩ | ⟨hs, hp, hm⟩
    · let n' := if (e.contended (c.lock.word (c.lock.stripeOf i))).isSome then n + 1 else n
      refine .inl ⟨i, _, some (.entering i (.enter i e' n')), rfl, ?_, ⟨e', n', rfl, he'⟩, fun _ => rfl⟩
      simp only [Crowd.visit, Crowd.Visit.task, Crowd.visited, Lock.step, step, hs, hself]
      rfl
    · refine .inl ⟨i, _, none, rfl, ?_, trivial, fun _ => rfl⟩
      simp only [Crowd.visit, Crowd.Visit.task, Crowd.visited, Lock.step, step, hs, hself]
      rfl
    · refine .inl ⟨i, _, none, rfl, ?_, trivial, fun _ => rfl⟩
      simp only [Crowd.visit, Crowd.Visit.task, Crowd.visited, Lock.step, step, hs, hself]
      rfl
    · refine .inr (.inl ⟨i, _, rfl, hp, hm, ?_⟩)
      simp only [Crowd.visit, Crowd.Visit.task, Crowd.visited, Lock.step, step, hs]
  | leaving i t =>
    obtain rfl : t = .leave i := hv
    refine .inr (.inr ⟨i, rfl, ?_⟩)
    simp only [Crowd.visit, Crowd.Visit.task, Crowd.visited, Lock.step, step, Word.release]

theorem booked_visit {c : Party} {k : Nat} {v : Crowd.Visit Task} (h : Booked c) (hk : c.threads[k]? = some (some v)) :
    Booked (c.visit k v) := by
  rcases visit_cases h hk with ⟨i, t, v', rfl, hc, hs, hl⟩ | ⟨i, t, rfl, hp, hm, hc⟩ | ⟨i, rfl, hc⟩
  · rw [hc]
    refine h.of_same rfl rfl ?_ (Crowd.forall_setThread h.sound hs)
    intro p
    simpa [hl] using Crowd.readersAt_setThread (v := v') (p := p) hk
  · have hq := stripeOf_lt c.lock i
    have hw := h.counts _ hq
    have hr : raised c.tenure (c.lock.stripeOf i) = false := by rw [← hw.writerPending, hp]
    rw [hr] at hw
    rw [hc]
    refine h.of_put rfl hq rfl ?_ ?_ ?_ (Crowd.forall_setThread h.sound (u := none) trivial)
    · intro j hj
      have hne : c.lock.maps j i = false := by simpa [maps] using Ne.symm hj
      rw [Crowd.readersAt_entered _ hk, hne]
      rfl
    · rw [Crowd.readersAt_entered _ hk, stripeOf_maps, hr]
      exact hw.enter hm
    · exact Bool.eq_false_iff.mpr fun ho => by simp [owns_raised ho] at hr
  · have hq := stripeOf_lt c.lock i
    have hn := Crowd.readersAt_left (l := c.lock.put (c.lock.stripeOf i) (c.lock.word (c.lock.stripeOf i)).leave)
      (c.lock.maps (c.lock.stripeOf i)) hk
    rw [stripeOf_maps, Bool.toNat_true] at hn
    have hw := h.counts _ hq
    rw [readersOn, ← hn] at hw
    rw [hc]
    refine h.of_put rfl hq rfl ?_ hw.leave ?_ (Crowd.forall_setThread h.sound (u := none) trivial)
    · intro j hj
      have hne : c.lock.maps j i = false := by simpa [maps] using Ne.symm hj
      have := Crowd.readersAt_left (l := c.lock.put (c.lock.stripeOf i) (c.lock.word (c.lock.stripeOf i)).leave)
        (c.lock.maps j) hk
      simpa [hne, readersOn] using this
    · apply Bool.eq_false_iff.mpr
      intro ho
      have := h.alone _ hq ho
      rw [readersOn] at this
      omega

/-! ## The writer's access -/

theorem raised_block {k : Nat} {s s' : Session} {n n' : UInt32} (h : s'.raised = s.raised) :
    (Task.block k s' n').raised = (Task.block k s n).raised := by
  funext j
  simp [Task.raised, h]

/-- A blocking writer that finds its word empty goes on to the next stripe, or is inside. -/
theorem booked_owned {c : Party} {k : Nat} {s : Session} {n a b : UInt32} (h : Booked c)
    (ht : c.tenure = .blocking (.block k s n)) (hk : k < c.lock.words.size)
    (hs : s.step (c.lock.word k) = (c.lock.word k, .done (.ok (a, b)))) (hr : s.raised = true)
    (hw : c.lock.word k = .owned) : Booked (c.write (.block k s n)) := by
  have hc := h.counts
  have ha := h.alone
  rw [ht] at hc ha
  have hself := put_self c.lock hk
  have h0 : readersOn c k = 0 := ((hc k hk).eq_owned_iff.mp hw).1
  have hup : ∀ j, (Task.block k s n).raised j = decide (j < k + 1) := by
    intro j
    rw [Bool.eq_iff_iff]
    simp [Task.raised, hr]
    omega
  have hdown : ∀ j < k + 1, j < c.lock.words.size → readersOn c j = 0 := by
    intro j hj hjs
    by_cases e : j = k
    · exact e ▸ h0
    · exact ha j hjs (by simp only [owns, Crowd.Tenure.holds, Task.owns, decide_eq_true_eq]; omega)
  simp only [Crowd.write, Lock.step, step, hs, hself, ht]
  by_cases hsum : n.toNat + b.toNat < 0x100000000
  · simp only [if_pos hsum]
    by_cases hlast : k + 1 < c.lock.words.size
    · simp only [if_pos hlast, Crowd.Tenure.proceed]
      refine h.of_tenure rfl ?_ ?_ ⟨k + 1, _, _, rfl, hlast⟩
      · intro j hj
        have hcj := hc j hj
        simp only [raised, Crowd.Tenure.holds, hup] at hcj
        simpa [raised, Crowd.Tenure.holds, Task.raised, Session.start, Session.raised] using hcj
      · intro j hj ho
        exact hdown j (by simpa [owns, Crowd.Tenure.holds, Task.owns] using ho) hj
    · simp only [if_neg hlast, Crowd.Tenure.proceed]
      refine h.of_tenure rfl ?_ (fun j hj _ => hdown j (by omega) hj) trivial
      intro j hj
      have hcj := hc j hj
      simp only [raised, Crowd.Tenure.holds, hup] at hcj
      have : j < k + 1 := by omega
      simpa [raised, Crowd.Tenure.holds, this] using hcj
  · simp only [if_neg hsum, Crowd.Tenure.proceed]
    exact h.of_tenure rfl hc ha trivial

/-- An access of a blocking writer. -/
theorem booked_block {c : Party} {k : Nat} {s : Session} {n : UInt32} (h : Booked c)
    (ht : c.tenure = .blocking (.block k s n)) (hk : k < c.lock.words.size) : Booked (c.write (.block k s n)) := by
  have hc := h.counts
  have ha := h.alone
  rw [ht] at hc ha
  have hself := put_self c.lock hk
  rcases Session.step_cases s (c.lock.word k) with ⟨s', hs, hr⟩ | ⟨s', hs, hr, hr'⟩ | ⟨f, hs⟩ | ⟨⟨a, b⟩, hs, hr, hw⟩
  · simp only [Crowd.write, Lock.step, step, hs, hself, ht, Crowd.Tenure.proceed]
    refine h.of_tenure rfl ?_ ha ⟨k, s', n, rfl, hk⟩
    intro j hj
    show (c.lock.word j).Counts (readersOn c j) ((Task.block k s' n).raised j)
    rw [raised_block (n := n) hr]
    exact hc j hj
  · simp only [Crowd.write, Lock.step, step, hs, ht, Crowd.Tenure.proceed]
    refine h.of_tenure (size_put ..) ?_ ha ⟨k, s', n, rfl, hk⟩
    intro j hj
    have hcj := hc j hj
    rw [word_put _ _ _ _ hk]
    by_cases e : k = j
    · subst e
      simpa [raised, Crowd.Tenure.holds, Task.raised, hr'] using hcj.raise
    · have hne : (j == k) = false := by simpa using Ne.symm e
      simpa [raised, Crowd.Tenure.holds, Task.raised, e, hne] using hcj
  · simp only [Crowd.write, Lock.step, step, hs, hself, ht, Crowd.Tenure.proceed]
    exact h.of_tenure rfl hc ha trivial
  · exact booked_owned h ht hk hs hr hw

/-- An access of an unblocking writer; it never breaks off. -/
theorem booked_unblock {c : Party} {k : Nat} (h : Booked c) (ht : c.tenure = .unblocking (.unblock k))
    (hk : k < c.lock.words.size) : Booked (c.write (.unblock k)) := by
  have hc := h.counts
  have ha := h.alone
  rw [ht] at hc ha
  have hw : (c.lock.word k).Counts (readersOn c k) true := by
    simpa [raised, Crowd.Tenure.holds, Task.raised] using hc k hk
  have hcounts : ∀ r : Crowd.Tenure Task, raised r k = false →
      (∀ j, j < c.lock.words.size → j ≠ k → raised r j = (Task.unblock k).raised j) →
      ∀ j < c.lock.words.size, ((c.lock.put k (c.lock.word k).lower).word j).Counts (readersOn c j) (raised r j) := by
    intro r hrk hrj j hj
    rw [word_put _ _ _ _ hk]
    by_cases e : k = j
    · subst e
      rw [if_pos rfl, hrk]
      exact hw.lower
    · rw [if_neg e, hrj j hj (Ne.symm e)]
      exact hc j hj
  simp only [Crowd.write, Lock.step, step, hw.unblock, ht]
  by_cases hlast : k + 1 < c.lock.words.size
  · simp only [if_pos hlast, Crowd.Tenure.proceed]
    refine h.of_tenure (size_put ..) (hcounts _ ?_ ?_) (fun j hj ho => ha j hj ?_) ⟨k + 1, rfl, hlast⟩
    · simp [raised, Crowd.Tenure.holds, Task.raised]
    · intro j _ hj
      simp only [raised, Crowd.Tenure.holds, Task.raised, decide_eq_decide]
      omega
    · simp only [owns, Crowd.Tenure.holds, Task.owns, decide_eq_true_eq] at ho ⊢
      omega
  · simp only [if_neg hlast, Crowd.Tenure.proceed]
    refine h.of_tenure (size_put ..) (hcounts _ rfl ?_) (fun j _ ho => nomatch ho) trivial
    intro j hj hjk
    have : ¬ k ≤ j := by omega
    simp [raised, Crowd.Tenure.holds, Task.raised, this]

theorem booked_write {c : Party} {t : Task} (h : Booked c) (ht : c.tenure.task? = some t) : Booked (c.write t) := by
  have hr := h.ready
  cases he : c.tenure with
  | blocking u =>
    rw [he] at ht hr
    cases ht
    obtain ⟨k, s, n, rfl, hk⟩ := hr
    exact booked_block h he hk
  | unblocking u =>
    rw [he] at ht hr
    cases ht
    obtain ⟨k, rfl, hk⟩ := hr
    exact booked_unblock h he hk
  | out => rw [he] at ht; cases ht
  | inside => rw [he] at ht; cases ht
  | broken u => rw [he] at ht; cases ht

theorem booked_stumble {c : Party} {t : Task} {p : Progress Task Verdict} (h : Booked c) (ht : c.tenure.task? = some t)
    (hp : Stumbles.stumble? c.lock t = some p) : Booked { c with tenure := c.tenure.proceed p } := by
  have hr := h.ready
  have hc := h.counts
  have ha := h.alone
  cases he : c.tenure with
  | blocking u =>
    rw [he] at ht hr hc ha
    cases ht
    obtain ⟨k, s, n, rfl, hk⟩ := hr
    obtain ⟨q, hq, rfl⟩ := Option.map_eq_some_iff.mp hp
    obtain ⟨hs, ⟨s', rfl, hs'⟩ | ⟨f, rfl⟩⟩ := Session.stumble?_cases hq
    · refine h.of_tenure rfl ?_ ha ⟨k, s', n, rfl, hk⟩
      intro j hj
      show (c.lock.word j).Counts (readersOn c j) ((Task.block k s' n).raised j)
      rw [raised_block (n := n) (hs'.trans hs.symm)]
      exact hc j hj
    · exact h.of_tenure rfl hc ha trivial
  | unblocking u =>
    rw [he] at ht hr
    cases ht
    obtain ⟨k, rfl, hk⟩ := hr
    cases hp
  | out => rw [he] at ht; cases ht
  | inside => rw [he] at ht; cases ht
  | broken u => rw [he] at ht; cases ht

/-! ## Every run -/

theorem booked_step (c : Party) (e : Crowd.Event) (h : Booked c) : Booked (c.step e) := by
  have hc := h.counts
  have ha := h.alone
  cases e with
  | enter k i =>
    simp only [Crowd.step]
    split
    · rename_i hk
      have hs : Sound (some (.entering i (Lock.enter c.lock i))) := ⟨.look, 0, rfl, trivial⟩
      refine h.of_same rfl rfl ?_ (Crowd.forall_setThread h.sound hs)
      intro p
      simpa using Crowd.readersAt_setThread (v := some (.entering i (Lock.enter c.lock i))) (p := p) hk
    · exact h
  | leave k i =>
    simp only [Crowd.step]
    split
    · rename_i hk hi
      have hs : Sound (some (.leaving i (Lock.leave c.lock i))) := rfl
      refine h.of_same rfl rfl ?_ (Crowd.forall_setThread h.sound hs)
      intro p
      exact Crowd.readersAt_leave p hk (List.contains_iff_mem.mp hi)
    · exact h
  | turn k =>
    simp only [Crowd.step]
    split
    · exact booked_visit h ‹_›
    · exact h
  | block =>
    simp only [Crowd.step]
    split
    · rename_i ht
      rw [ht] at hc ha
      refine h.of_tenure rfl ?_ ?_ ⟨0, _, _, rfl, c.lock.pos⟩
      · intro j hj
        simpa [raised, Crowd.Tenure.holds, Task.raised, Lock.block, Session.start, Session.raised] using hc j hj
      · intro j hj ho
        simp [owns, Crowd.Tenure.holds, Task.owns, Lock.block] at ho
    · exact h
  | unblock =>
    simp only [Crowd.step]
    split
    · rename_i ht
      rw [ht] at hc ha
      refine h.of_tenure rfl ?_ (fun j hj _ => ha j hj rfl) ⟨0, rfl, c.lock.pos⟩
      intro j hj
      simpa [raised, Crowd.Tenure.holds, Task.raised, Lock.unblock] using hc j hj
    · exact h
  | writer =>
    simp only [Crowd.step]
    split
    · exact booked_write h ‹_›
    · exact h
  | stumble =>
    simp only [Crowd.step]
    split
    · rename_i hp
      obtain ⟨t, ht, hp⟩ := Option.bind_eq_some_iff.mp hp
      exact booked_stumble h ht hp
    · exact h

theorem run_booked {c : Party} (h : Booked c) (es : List Crowd.Event) : Booked (c.run es) :=
  Crowd.run_keeps booked_step h es

theorem size_step (l : StripedLock) (t : Task) : (step l t).1.words.size = l.words.size := by
  cases t with
  | enter i e n => simp only [step]; split <;> exact size_put ..
  | leave i => exact size_put ..
  | block k s n => simp only [step]; (repeat' split) <;> exact size_put ..
  | unblock k => simp only [step]; split <;> exact size_put ..

theorem size_event (c : Party) (e : Crowd.Event) : (c.step e).lock.words.size = c.lock.words.size := by
  rcases Crowd.lock_step c e with h | ⟨t, h⟩
  · rw [h]
  · rw [h]
    exact size_step c.lock t

theorem size_run (c : Party) (es : List Crowd.Event) : (c.run es).lock.words.size = c.lock.words.size :=
  Crowd.run_keeps (P := fun d : Party => d.lock.words.size = c.lock.words.size)
    (fun d e hd => (size_event d e).trans hd) rfl es

/-! ## What follows for readers and the writer -/

/-- As long as its bit is set nobody is counted in on a stripe. -/
theorem readersOn_step_le {c : Party} {j : Nat} (h : Booked c) (hj : j < c.lock.words.size)
    (hr : raised c.tenure j = true) (e : Crowd.Event) : readersOn (c.step e) j ≤ readersOn c j := by
  have hm : readersOn (c.step e) j = (c.step e).readersAt (c.lock.maps j) := by
    rw [readersOn, maps_of_size (size_event c e)]
  rw [hm]
  by_cases ht : ∃ k, e = .turn k
  · obtain ⟨k, rfl⟩ := ht
    simp only [Crowd.step]
    split
    · rename_i v hk
      rcases visit_cases h hk with ⟨i, t, v', rfl, hc, -, hl⟩ | ⟨i, t, rfl, hp, -, hc⟩ | ⟨i, rfl, hc⟩
      · rw [hc]
        have := Crowd.readersAt_setThread (v := v') (p := c.lock.maps j) hk
        simp only [hl, Crowd.leaves_entering, Bool.toNat_false] at this
        exact Nat.le_of_eq this
      · rw [hc, Crowd.readersAt_entered _ hk]
        have hne : c.lock.maps j i = false := by
          apply Bool.eq_false_iff.mpr
          intro hi
          have hw := (h.counts j hj).writerPending
          rw [(maps_stripeOf c.lock i j).mp hi] at hp
          rw [hp, hr] at hw
          cases hw
        rw [hne]
        exact Nat.le_refl _
      · rw [hc]
        have := Crowd.readersAt_left (l := c.lock.put (c.lock.stripeOf i) (c.lock.word (c.lock.stripeOf i)).leave)
          (c.lock.maps j) hk
        rw [← readersOn] at this
        omega
    · exact Nat.le_refl _
  · exact Nat.le_of_eq (Crowd.readersAt_step _ fun k hk => ht ⟨k, hk⟩)

/-- A release in progress does not break off. -/
theorem leaving_finishes {c : Party} {k : Nat} {i : Index} {t : Task} (h : Booked c)
    (hk : c.threads[k]? = some (some (.leaving i t))) : (step c.lock t).2.1 = .done .finished := by
  obtain rfl : t = .leave i := h.sound _ (List.mem_of_getElem? hk)
  have hn := Crowd.readersAt_left (l := c.lock) (c.lock.maps (c.lock.stripeOf i)) hk
  rw [stripeOf_maps, Bool.toNat_true] at hn
  have hw := h.counts _ (stripeOf_lt c.lock i)
  rw [readersOn, ← hn] at hw
  simp only [step, hw.release, Verdict.ofExcept]

/-- An unblock in progress does not break off. -/
theorem unblocking_goes_on {c : Party} {t : Task} (h : Booked c) (ht : c.tenure = .unblocking t) :
    ∃ k, t = .unblock k ∧ k < c.lock.words.size ∧
      (step c.lock t).2.1 = if k + 1 < c.lock.words.size then .more (.unblock (k + 1)) else .done .finished := by
  have hr := h.ready
  rw [ht] at hr
  obtain ⟨k, rfl, hk⟩ := hr
  have hw := h.counts k hk
  rw [show raised c.tenure k = true by simp [raised, ht, Crowd.Tenure.holds, Task.raised]] at hw
  exact ⟨k, rfl, hk, by simp only [step, hw.unblock]⟩

/-- With every word the writer's alone, a reader in progress is turned away, or its count of
    failures does not fit any more; the lock stays as it is. -/
theorem entering_refused {c : Party} {k : Nat} {i : Index} {t : Task} (h : Booked c)
    (ho : ∀ j < c.lock.words.size, c.lock.word j = .owned) (hk : c.threads[k]? = some (some (.entering i t))) :
    (step c.lock t).1 = c.lock ∧
      ((step c.lock t).2.1 = .done .refused ∨ (step c.lock t).2.1 = .done (.failed .sumOverflow)) := by
  obtain ⟨e, n, rfl, he⟩ := h.sound _ (List.mem_of_getElem? hk)
  have hq := stripeOf_lt c.lock i
  have hself := put_self c.lock hq
  rw [ho _ hq] at hself
  rcases Entry.step_owned he with hs | hs
  · simp only [step, ho _ hq, hs, hself]
    exact ⟨trivial, .inl trivial⟩
  · simp only [step, ho _ hq, hs, hself]
    exact ⟨trivial, .inr trivial⟩

/-- A reader that begins on a word that is the writer's alone is turned away, and the lock stays
    as it is. -/
theorem run_enter_refused {l : StripedLock} {i : Index} (h : l.word (l.stripeOf i) = .owned) :
    ∃ ns, Lock.run l (Lock.enter l i) = ((l, ns), .done .refused) := by
  have hself := put_self l (stripeOf_lt l i)
  rw [h] at hself
  have hs : step l (.enter i .look 0) = (l, .done .refused, [.sample .readCasFailures 0, .event .readRejected]) := by
    rcases Entry.step_owned (e := .look) trivial with ho | ho
    · simp only [step, h, ho, hself]
      rfl
    · cases ho
  exact ⟨_, alone_succ_done rfl (by simp only [Lock.noted, Lock.step, Lock.enter, hs]; rfl)⟩

/-- Where nobody is counted on any stripe, no read lock is out. -/
theorem readers_eq_zero {c : Party} (h : ∀ j < c.lock.words.size, readersOn c j = 0) : c.readers = 0 := by
  have key : ∀ i, c.readersAt (c.lock.maps (c.lock.stripeOf i)) = 0 := fun i => h _ (stripeOf_lt c.lock i)
  simp only [Crowd.readersAt, Nat.add_eq_zero_iff, List.countP_eq_zero] at key
  simp only [Crowd.readers, Crowd.readersAt, Nat.add_eq_zero_iff, List.countP_eq_zero]
  refine ⟨fun i hi _ => (key i).1 i hi (stripeOf_maps c.lock i), ?_⟩
  intro v hv hl
  cases v with
  | none => cases hl
  | some v =>
    cases v with
    | entering i t => cases hl
    | leaving i t => exact (key i).2 _ hv (stripeOf_maps c.lock i)

/-- What a striped lock promises its readers and its writer. -/
structure Exclusive (c : Party) : Prop where
  /-- A blocking writer is at a stripe of the lock and has every stripe before it to itself. -/
  blocking : ∀ t, c.tenure = .blocking t →
    ∃ k s n, t = .block k s n ∧ k < c.lock.words.size ∧ ∀ j < k, c.lock.word j = .owned
  /-- Once block has returned, the writer has every stripe to itself and no read lock is out;
      whoever begins to enter, with any index, is turned away, whoever is about to does not
      get in, and neither changes a stripe. -/
  inside : c.tenure = .inside →
    (∀ j < c.lock.words.size, c.lock.word j = .owned) ∧ c.readers = 0 ∧
      (∀ i, ∃ ns, Lock.run c.lock (Lock.enter c.lock i) = ((c.lock, ns), .done .refused)) ∧
      ∀ (k : Nat) i t, c.threads[k]? = some (some (.entering i t)) → (step c.lock t).1 = c.lock ∧
        ((step c.lock t).2.1 = .done .refused ∨ (step c.lock t).2.1 = .done (.failed .sumOverflow))
  /-- An unblocking writer is at a stripe of the lock and still has it and every later one. -/
  unblocking : ∀ t, c.tenure = .unblocking t →
    ∃ k, t = .unblock k ∧ k < c.lock.words.size ∧ ∀ j, k ≤ j → j < c.lock.words.size → c.lock.word j = .owned

theorem Booked.exclusive {c : Party} (h : Booked c) : Exclusive c := by
  have hr := h.ready
  refine ⟨?_, ?_, ?_⟩
  · intro t ht
    rw [ht] at hr
    obtain ⟨k, s, n, rfl, hk⟩ := hr
    refine ⟨k, s, n, rfl, hk, fun j hj => h.eq_owned (by omega) ?_⟩
    simpa [owns, ht, Crowd.Tenure.holds, Task.owns] using hj
  · intro ht
    have hown : ∀ j, owns c.tenure j = true := fun j => by rw [ht]; rfl
    have ho : ∀ j < c.lock.words.size, c.lock.word j = .owned := fun j hj => h.eq_owned hj (hown j)
    exact ⟨ho, readers_eq_zero fun j hj => h.alone j hj (hown j), fun i => run_enter_refused (ho _ (stripeOf_lt _ i)),
      fun k i t hk => entering_refused h ho hk⟩
  · intro t ht
    rw [ht] at hr
    obtain ⟨k, rfl, hk⟩ := hr
    refine ⟨k, rfl, hk, fun j hkj hj => h.eq_owned hj ?_⟩
    simpa [owns, ht, Crowd.Tenure.holds, Task.owns] using hkj

/-- However many threads, stripes and steps: a striped lock keeps what it promises. -/
theorem stripes_exclude (m n : Nat) (es : List Crowd.Event) :
    ((Crowd.around m (new n) : Party).run es).lock.words.size = n + 1 ∧
      Exclusive ((Crowd.around m (new n) : Party).run es) := by
  refine ⟨?_, (run_booked (booked_around m n) es).exclusive⟩
  rw [size_run]
  simp [Crowd.around, new]

/-- A swap of the writer fails for no reason, and a reader comes too late and is turned away. -/
example :
    let c := (Crowd.around 2 (new 1) : Party).run
      [.enter 0 ⟨3⟩, .turn 0, .block, .writer, .stumble, .writer, .writer, .writer, .writer, .turn 0, .enter 1 ⟨0⟩,
        .turn 1, .writer]
    c.lock.words = #[.owned, .owned] ∧ c.tenure.granted = true ∧ c.readers = 0 := by decide

end BusyWait.StripedLock
