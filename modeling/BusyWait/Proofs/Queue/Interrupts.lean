import BusyWait.Proofs.Queue.Receipts

/-
  BusyWait.Proofs.Queue.Interrupts — what a flag costs the waits that share it.

  Any number of waits share flags that are raised and lowered between any two of their
  steps, while elements come and go. A wait reads its flag twice: plainly, and, if it was
  raised, by the swap that lowers it. Only the swap decides.

  The journal tells what each flag was at any time (`raisedAfter`), and what waits have read
  of it is that (`Genuine`). So between two swaps that have found a flag raised it was
  raised (`Genuine.between`), and no more waits are interrupted than it was raised: the
  waits that were, and the flag if it is up, are covered by the times that it was raised
  (`Signals`).

  - `interrupts_cost_nothing`: all this after every run, and that who is interrupted or out
    of time has removed nothing, while who is not interrupted has lowered nothing.
-/

namespace BusyWait

variable {σ α : Type}

/-! ## Flags in the journal -/

namespace Probe

/-- The flag that was read, and what it was. -/
def reads? : Probe α → Option (Nat × Bool)
  | .looked flag raised | .swapped flag raised => some (flag, raised)
  | _ => none

def lowers (flag : Nat) : Probe α → Bool
  | .swapped g _ => decide (g = flag)
  | _ => false

end Probe

namespace Mark

/-- What a flag is after this, if it was `raised` before. -/
def flagAfter (flag : Nat) (raised : Bool) : Mark α → Bool
  | .set g b => if g = flag then b else raised
  | .probed _ p => raised && !p.lowers flag
  | .did _ _ => raised

/-- The flag was raised. -/
def raises (flag : Nat) : Mark α → Bool
  | .set g b => decide (g = flag) && b
  | _ => false

end Mark

/-- Whether a flag is raised after all this. -/
def raisedAfter (flag : Nat) (ms : List (Mark α)) : Bool := ms.foldl (Mark.flagAfter flag) false

theorem raisedAfter_concat (flag : Nat) (ms : List (Mark α)) (m : Mark α) :
    raisedAfter flag (ms ++ [m]) = m.flagAfter flag (raisedAfter flag ms) := by
  rw [raisedAfter, List.foldl_append]
  rfl

theorem raisedAfter_take {flag i : Nat} {ms : List (Mark α)} {m : Mark α} (h : ms[i]? = some m) :
    raisedAfter flag (ms.take (i + 1)) = m.flagAfter flag (raisedAfter flag (ms.take i)) := by
  rw [List.take_add_one, h]
  exact raisedAfter_concat ..

/-- What waits have read of flags is what they were. -/
def Genuine (ms : List (Mark α)) : Prop :=
  ∀ i k p flag raised, ms[i]? = some (.probed k p) → p.reads? = some (flag, raised) →
    raised = raisedAfter flag (ms.take i)

theorem Genuine.concat {ms : List (Mark α)} (h : Genuine ms) {m : Mark α}
    (hm : ∀ k p flag raised, m = .probed k p → p.reads? = some (flag, raised) → raised = raisedAfter flag ms) :
    Genuine (ms ++ [m]) := by
  intro i k p flag raised hi hp
  rcases Nat.lt_trichotomy i ms.length with hlt | rfl | hgt
  · rw [List.getElem?_append_left hlt] at hi
    rw [List.take_append_of_le_length (Nat.le_of_lt hlt)]
    exact h i k p flag raised hi hp
  · rw [List.getElem?_concat_length] at hi
    rw [List.take_left']
    · exact hm k p flag raised (Option.some.inj hi) hp
    · rfl
  · rw [List.getElem?_eq_none (by simp; omega)] at hi
    cases hi

/-- A deed is no reading of a flag. -/
theorem genuine_did {ms : List (Mark α)} (h : Genuine ms) (k : Nat) (d : Option (Deed α)) :
    Genuine (ms ++ (d.map (.did k)).toList) ∧
      ∀ flag, raisedAfter flag (ms ++ (d.map (.did k)).toList) = raisedAfter flag ms := by
  cases d with
  | none => simpa using h
  | some d =>
    refine ⟨h.concat ?_, ?_⟩
    · intro i p flag raised hd
      cases hd
    · intro flag
      exact raisedAfter_concat ..

/-- A flag that was lowered and is found raised was raised in between. -/
theorem Genuine.between {ms : List (Mark α)} (h : Genuine ms) {i j k l flag : Nat} {raised : Bool} (hij : i < j)
    (hi : ms[i]? = some (.probed k (.swapped flag raised))) (hj : ms[j]? = some (.probed l (.swapped flag true))) :
    ∃ m, i < m ∧ m < j ∧ ms[m]? = some (.set flag true) := by
  by_contra hnone
  have hdown : ∀ n, i + n < j → raisedAfter flag (ms.take (i + n + 1)) = false := by
    intro n
    induction n with
    | zero =>
      intro _
      rw [Nat.add_zero, raisedAfter_take hi]
      simp [Mark.flagAfter, Probe.lowers]
    | succ n ih =>
      intro hn
      have hlen := (List.getElem?_eq_some_iff.mp hj).1
      have hm : ms[i + (n + 1)]? = some ms[i + (n + 1)] := List.getElem?_eq_getElem (by omega)
      have hbefore := ih (by omega)
      rw [Nat.add_assoc] at hbefore
      rw [raisedAfter_take hm, hbefore]
      cases hx : ms[i + (n + 1)] with
      | did k d => rfl
      | probed k p => rfl
      | set g b =>
        -- raised here, it would be the one in between
        by_cases hg : g = flag
        · subst hg
          cases b with
          | false => simp [Mark.flagAfter]
          | true => exact absurd ⟨_, by omega, hn, hx ▸ hm⟩ hnone
        · simp [Mark.flagAfter, hg]
  obtain ⟨n, rfl⟩ := Nat.exists_eq_add_of_lt hij
  have hraised := h _ _ _ _ _ hj rfl
  rw [hdown n (by omega)] at hraised
  cases hraised

/-! ## What an access does to flags -/

namespace Shared

variable (s : Shared α) (flag g : Nat)

theorem raised_setFlag (b : Bool) : (s.setFlag flag b).raised g =
    if flag = g ∧ g < s.flags.size then b else s.raised g := by
  simp only [raised, setFlag, Array.getElem?_setIfInBounds]
  by_cases h : flag = g
  · subst h
    by_cases hlt : flag < s.flags.size <;> simp [hlt]
  · simp [h]

theorem raised_lowered : (s.setFlag flag false).raised g = (s.raised g && !decide (flag = g)) := by
  rw [raised_setFlag]
  by_cases h : flag = g
  · subst h
    by_cases hlt : flag < s.flags.size <;> simp [hlt, raised]
  · simp [h]

end Shared

namespace Job

/-- A wait reads a flag as it is. -/
theorem probe?_reads {s : Shared α} {j : Job σ α} {p : Probe α} {flag : Nat} {raised : Bool}
    (h : j.probe? s = some p) (hp : p.reads? = some (flag, raised)) : raised = s.raised flag := by
  cases j with
  | take t q g =>
    cases t with
    | attempt n =>
      simp only [probe?] at h
      split at h <;> cases h
      cases hp
    | look n =>
      cases h
      cases hp
      rfl
    | lower n =>
      cases h
      cases hp
      rfl
  | pollTimeout t q g deadline =>
    cases t with
    | attempt n =>
      simp only [probe?] at h
      split at h <;> cases h
      cases hp
    | look n =>
      cases h
      cases hp
      rfl
    | lower n =>
      cases h
      cases hp
      rfl
    | clock n =>
      cases h
      cases hp
  | _ => cases h

variable [BEq α]

/-- Only a swap of a wait lowers a flag. -/
theorem after_raised (s : Shared α) (j : Job σ α) (flag : Nat) :
    (j.after s).1.raised flag = (s.raised flag && !(j.probe? s).any (Probe.lowers flag)) := by
  have hkeep : ∀ {x : Shared α} {o : Option (Probe α)}, x.flags = s.flags → o.any (Probe.lowers flag) = false →
      x.raised flag = (s.raised flag && !o.any (Probe.lowers flag)) := by
    intro x o hx ho
    simp [Shared.raised, hx, ho]
  cases j with
  | push p rest reply =>
    rw [after_push]
    exact hkeep rfl rfl
  | pop p reply =>
    rw [after_pop]
    exact hkeep rfl rfl
  | popMany p left got =>
    rw [after_popMany]
    exact hkeep rfl rfl
  | walk aim w reply =>
    rw [after_walk]
    exact hkeep rfl rfl
  | next w left got =>
    rw [after_next]
    exact hkeep rfl rfl
  | collect w got =>
    rw [after_collect]
    exact hkeep rfl rfl
  | containsAll item w rest =>
    rw [after_containsAll]
    exact hkeep rfl rfl
  | take t p g =>
    cases t with
    | attempt n =>
      rw [after_take]
      apply hkeep rfl
      simp only [probe?]
      split <;> rfl
    | look n => exact hkeep rfl rfl
    | lower n =>
      rw [after_take_lower]
      exact s.raised_lowered g flag
  | pollTimeout t p g deadline =>
    cases t with
    | attempt n =>
      rw [after_timed]
      apply hkeep rfl
      simp only [probe?]
      split <;> rfl
    | look n => exact hkeep rfl rfl
    | lower n =>
      rw [after_timed_lower]
      exact s.raised_lowered g flag
    | clock n =>
      rw [after_timed_clock]
      exact hkeep rfl rfl

end Job

/-! ## Who is interrupted -/

def Reply.interrupted : Reply σ α → Bool
  | .result (.error .interrupted) | .timed (.error .interrupted) => true
  | _ => false

/-- In this place a wait with this flag has ended as interrupted. -/
def interruptedBy (flag : Nat) : Option (Ticket σ α) → Bool
  | some ⟨call, .done r⟩ => decide (call.purpose = .waits flag) && r.interrupted
  | _ => false

@[simp] theorem interruptedBy_none (flag : Nat) : interruptedBy flag (none : Option (Ticket σ α)) = false := rfl

@[simp] theorem interruptedBy_more (flag : Nat) (call : Call σ α) (j : Job σ α) :
    interruptedBy flag (some ⟨call, .more j⟩) = false := rfl

/-- What a wait under way has come to was in vain. -/
theorem Job.Course.vain {ps : List (Probe α)} {j : Job σ α} (h : j.Course ps) : ∀ p ∈ ps, p.vain = true := by
  rw [← Probe.closes_nil]
  cases j with
  | take t p flag =>
    cases t with
    | attempt n => exact h
    | look n => exact Probe.Closes.vain h (by simp [Probe.vain])
    | lower n => exact Probe.Closes.vain h (by simp [Probe.vain])
  | pollTimeout t p flag deadline =>
    cases t with
    | attempt n => exact h
    | look n => exact Probe.Closes.vain h (by simp [Probe.vain])
    | lower n => exact Probe.Closes.vain h (by simp [Probe.vain])
    | clock n => exact h
  | _ => exact Probe.closes_nil.mpr (by simp [show ps = [] from h])

section
variable {call : Call σ α} {ds : List (Deed α)} {ps : List (Probe α)} {r : Reply σ α} {flag : Nat}

/-- The last steps of a wait that was interrupted. -/
theorem Reply.Fits.interrupted (h : r.Fits call ds ps) (hc : call.purpose = .waits flag) (hr : r.interrupted = true) :
    Probe.Closes [.tried none, .looked flag true, .swapped flag true] ps := by
  have hcourse := h.course
  simp only [hc] at hcourse
  obtain ⟨last, hlast, hcloses⟩ := hcourse
  unfold Reply.interrupted at hr
  split at hr
  · cases hlast
    exact hcloses
  · cases hlast
    exact hcloses
  · cases hr

/-- A wait that ends otherwise has not found its flag raised by a swap. -/
theorem Reply.Fits.spared (h : r.Fits call ds ps) (hr : r.interrupted = false) (g : Nat) : .swapped g true ∉ ps := by
  have hcourse := h.course
  split at hcourse
  · obtain ⟨last, hlast, before, hbefore, rfl⟩ := hcourse
    intro hmem
    rcases List.mem_append.mp hmem with hmem | hmem
    · have := hbefore _ hmem
      cases this
    · unfold Probe.ending? at hlast
      split at hlast
      · cases hlast
        simp at hmem
      · cases hlast
        simp at hmem
      · cases hr
      · cases hr
      · cases hlast
        simp at hmem
      · cases hlast
  · rw [hcourse]
    exact List.not_mem_nil

end

/-- A wait that has ended as interrupted has found its flag raised. -/
theorem swapped_of_interruptedBy {call : Call σ α} {ds : List (Deed α)} {ps : List (Probe α)} {flag : Nat}
    {x : Progress (Job σ α) (Reply σ α)} (h : x.Fits call ds ps) (hi : interruptedBy flag (some ⟨call, x⟩) = true) :
    .swapped flag true ∈ ps := by
  cases x with
  | more j => cases hi
  | done r =>
    simp only [interruptedBy, Bool.and_eq_true, decide_eq_true_eq] at hi
    obtain ⟨before, -, rfl⟩ := Reply.Fits.interrupted h hi.1 hi.2
    simp

/-- It is interrupted by the swap that has found it so. -/
theorem probe?_of_interrupted [BEq α] {s : Shared α} {call : Call σ α} {ds : List (Deed α)} {ps : List (Probe α)}
    {j : Job σ α} {flag : Nat} (h : j.Fits call ds ps) (hr : ∀ v, j.act? = some v → v.Ready s.chain)
    (hi : interruptedBy flag (some ⟨call, (j.after s).2⟩) = true) : j.probe? s = some (.swapped flag true) := by
  have hmem := swapped_of_interruptedBy (after_fits h hr) hi
  rcases List.mem_append.mp hmem with hmem | hmem
  · have := h.course.vain _ hmem
    cases this
  · exact Option.mem_toList.mp hmem

/-- A flag that is up goes into one interrupted wait at most, and is not up then. -/
theorem after_covers [BEq α] {s : Shared α} {call : Call σ α} {ds : List (Deed α)} {ps : List (Probe α)} {j : Job σ α}
    (h : j.Fits call ds ps) (hr : ∀ v, j.act? = some v → v.Ready s.chain) (flag : Nat) :
    (interruptedBy flag (some ⟨call, (j.after s).2⟩)).toNat + ((j.after s).1.raised flag).toNat ≤
      (s.raised flag).toNat := by
  rw [Job.after_raised]
  cases hi : interruptedBy flag (some ⟨call, (j.after s).2⟩) with
  | false => cases s.raised flag <;> cases (j.probe? s).any (Probe.lowers flag) <;> simp
  | true =>
    have hp := probe?_of_interrupted h hr hi
    rw [hp, ← Job.probe?_reads hp rfl]
    simp [Probe.lowers]

/-! ## All calls -/

namespace Traffic

/-- Flags are as the journal tells, and each interrupted wait and each raised flag has its signal. -/
structure Signals (t : Traffic σ α) : Prop where
  raised : ∀ flag, t.shared.raised flag = raisedAfter flag t.journal
  genuine : Genuine t.journal
  bounded : ∀ flag, t.calls.countP (interruptedBy flag) + (t.shared.raised flag).toNat ≤
    t.journal.countP (Mark.raises flag)

theorem signals_start (n m : Nat) : (start n m : Traffic σ α).Signals := by
  have hdown : ∀ flag, (start n m : Traffic σ α).shared.raised flag = false := by
    intro flag
    simp only [start, Shared.raised, Array.getElem?_replicate]
    split <;> rfl
  refine ⟨hdown, ?_, ?_⟩
  · intro i k p flag raised hi
    cases hi
  · intro flag
    rw [hdown]
    simp [start, List.countP_replicate]

theorem raises_set (t : Traffic σ α) (flag g : Nat) (raised : Bool) :
    (t.set g raised).journal.countP (Mark.raises flag) ≤
      t.journal.countP (Mark.raises flag) + (decide (g = flag) && raised).toNat := by
  rw [set]
  split
  · rw [List.countP_append, List.countP_singleton]
    apply Nat.add_le_add_left
    cases h : decide (g = flag) && raised <;> simp [Mark.raises, h]
  · exact Nat.le_add_right ..

theorem Signals.set {t : Traffic σ α} (h : t.Signals) (flag : Nat) (raised : Bool) : (t.set flag raised).Signals := by
  rw [Traffic.set]
  split
  · rename_i hlt
    have hraised : ∀ g, (t.shared.setFlag flag raised).raised g = if flag = g then raised else t.shared.raised g := by
      intro g
      rw [Shared.raised_setFlag]
      by_cases hg : flag = g
      · subst hg
        simp [hlt]
      · simp [hg]
    refine ⟨?_, h.genuine.concat ?_, ?_⟩
    · intro g
      rw [raisedAfter_concat, ← h.raised]
      exact hraised g
    · intro k p g b hset
      cases hset
    · intro g
      have hbounded := h.bounded g
      simp only [hraised, List.countP_append, List.countP_singleton, Mark.raises]
      by_cases hg : flag = g
      · subst hg
        cases raised <;> simp <;> omega
      · simpa [hg] using hbounded
  · exact h

variable [BEq α] {t : Traffic σ α}

theorem Signals.enlist (h : t.Signals) {k : Nat} (hk : t.calls[k]? = some none) (init : σ) (call : Call σ α) :
    (t.enlist k init call).Signals := by
  refine ⟨h.raised, h.genuine, ?_⟩
  intro flag
  have hnew : interruptedBy flag (some ⟨call, (Job.start init t.shared call).1⟩) = false := by
    by_contra hi
    have hmem := swapped_of_interruptedBy (start_fits init t.shared call) (Bool.not_eq_false _ ▸ hi)
    cases hmem
  have hcount := Crowd.countP_set_add (b := some ⟨call, (Job.start init t.shared call).1⟩) (interruptedBy flag) hk
  have hbounded := h.bounded flag
  rw [hnew, interruptedBy_none] at hcount
  simp only [Traffic.enlist]
  omega

/-- An access raises no flag. -/
theorem raises_turn (k : Nat) (call : Call σ α) (j : Job σ α) (flag : Nat) :
    (t.turn k call j).journal.countP (Mark.raises flag) = t.journal.countP (Mark.raises flag) := by
  rw [turn]
  cases j.deed? t.shared <;> cases j.probe? t.shared <;> simp [Mark.raises]

theorem Signals.turn (h : t.Signals) (hrec : t.Records) {k : Nat} {call : Call σ α} {j : Job σ α}
    (hk : t.calls[k]? = some (some ⟨call, .more j⟩)) : (t.turn k call j).Signals := by
  obtain ⟨hgenuine, hdid⟩ := genuine_did h.genuine k (j.deed? t.shared)
  have hraised : ∀ flag, (t.turn k call j).shared.raised flag = _ := Job.after_raised t.shared j
  have hjournal : (t.turn k call j).journal =
      (t.journal ++ ((j.deed? t.shared).map (.did k)).toList) ++ ((j.probe? t.shared).map (.probed k)).toList :=
    (List.append_assoc ..).symm
  refine ⟨?_, ?_, ?_⟩
  · intro flag
    rw [hraised, hjournal, h.raised, ← hdid]
    cases j.probe? t.shared with
    | none => simp
    | some p =>
      rw [Option.map_some, Option.toList_some, raisedAfter_concat]
      rfl
  · rw [hjournal]
    cases hp : j.probe? t.shared with
    | none => simpa using hgenuine
    | some p =>
      apply hgenuine.concat
      intro i q flag raised hq hread
      cases hq
      rw [hdid, ← h.raised]
      exact Job.probe?_reads hp hread
  · intro flag
    have hcount := Crowd.countP_set_add (b := some ⟨call, (j.after t.shared).2⟩) (interruptedBy flag) hk
    have hbounded := h.bounded flag
    have hcover := after_covers (hrec.fits k _ hk) (hrec.ready hk) flag
    rw [interruptedBy_more] at hcount
    rw [raises_turn]
    simp only [Traffic.turn, Job.after] at hcount hcover ⊢
    omega

theorem signals_step (t : Traffic σ α) (e : Event σ α) (h : t.Records ∧ t.Signals) :
    (t.step e).Records ∧ (t.step e).Signals := by
  refine ⟨records_step t e h.1, ?_⟩
  apply step_keeps h.2
  · intro k init call hk
    exact h.2.enlist hk init call
  · intro k call j hk
    exact h.2.turn h.1 hk
  · intro flag raised
    exact h.2.set flag raised
  · intro time
    exact ⟨h.2.raised, h.2.genuine, h.2.bounded⟩

/-! ## Signals in the journal -/

/-- The event raises this flag. -/
def Event.raises (flag : Nat) : Event σ α → Bool
  | .interrupt g => decide (g = flag)
  | _ => false

theorem raises_step (t : Traffic σ α) (e : Event σ α) (flag : Nat) :
    (t.step e).journal.countP (Mark.raises flag) ≤ t.journal.countP (Mark.raises flag) + (e.raises flag).toNat := by
  cases e with
  | begin k init call =>
    simp only [step]
    split <;> exact Nat.le_add_right ..
  | turn k =>
    simp only [step]
    split
    · rw [raises_turn]
      exact Nat.le_add_right ..
    · exact Nat.le_add_right ..
  | interrupt g =>
    have hset := raises_set t flag g true
    rwa [Bool.and_true] at hset
  | clear g =>
    have hset := raises_set t flag g false
    rwa [Bool.and_false] at hset
  | pass time => exact Nat.le_add_right ..

/-- The journal tells of no other signals than there were. -/
theorem raises_run (t : Traffic σ α) (es : List (Event σ α)) (flag : Nat) :
    (t.run es).journal.countP (Mark.raises flag) ≤
      t.journal.countP (Mark.raises flag) + es.countP (Event.raises flag) := by
  induction es generalizing t with
  | nil => exact Nat.le_refl _
  | cons e es ih =>
    have hcons : (e :: es).countP (Event.raises flag) = es.countP (Event.raises flag) + (e.raises flag).toNat := by
      rw [List.countP_cons]
      cases e.raises flag <;> rfl
    have hfirst := raises_step t e flag
    rw [hcons]
    exact (ih (t.step e)).trans (by omega)

/-! ## What flags cost -/

/-- What becomes of the waits that share flags, of the flags and of the elements. -/
structure Interruptible (t : Traffic σ α) : Prop where
  /-- No more waits are interrupted by a flag than it was raised. -/
  bounded : ∀ flag, t.calls.countP (interruptedBy flag) ≤ t.journal.countP (Mark.raises flag)
  /-- Flags are what the journal tells, and so is all that waits have read of them. -/
  raised : ∀ flag, t.shared.raised flag = raisedAfter flag t.journal
  genuine : Genuine t.journal
  /-- Between two swaps that have found a flag raised it was raised. -/
  between : ∀ (i j k l flag : Nat), i < j → t.journal[i]? = some (.probed k (.swapped flag true)) →
    t.journal[j]? = some (.probed l (.swapped flag true)) → ∃ m, i < m ∧ m < j ∧ t.journal[m]? = some (.set flag true)
  /-- A wait ends with the steps that go with its reply. One that is interrupted has found its flag raised, by a swap,
      right after an attempt that has found nothing. -/
  ended : ∀ (k : Nat) (call : Call σ α) (r : Reply σ α) (flag : Nat), t.calls[k]? = some (some ⟨call, .done r⟩) →
    call.purpose = .waits flag → ∃ last, Probe.ending? flag r = some last ∧ Probe.Closes last (t.probesOf k)
  /-- One that is not interrupted has not found its flag, or any other, raised by a swap, and so has lowered none. -/
  spared : ∀ (k : Nat) (call : Call σ α) (r : Reply σ α), t.calls[k]? = some (some ⟨call, .done r⟩) →
    r.interrupted = false → ∀ flag, .swapped flag true ∉ t.probesOf k
  /-- A wait hands over what it has moved out, and has dropped nothing. -/
  given : ∀ (k : Nat) (call : Call σ α) (r : Reply σ α) (flag : Nat), t.calls[k]? = some (some ⟨call, .done r⟩) →
    call.purpose = .waits flag → Deed.returnedIn (t.deedsOf k) = r.taken ∧ Deed.droppedIn (t.deedsOf k) = []
  /-- So one that hands over nothing, as who is interrupted or out of time does, has not even claimed anything. -/
  empty : ∀ (k : Nat) (call : Call σ α) (r : Reply σ α) (flag : Nat), t.calls[k]? = some (some ⟨call, .done r⟩) →
    call.purpose = .waits flag → r.taken = [] → ∀ n, (t.deedsOf k).countP (Deed.claims n) = 0
  /-- What is moved out was put in, and no two calls have moved it out. -/
  sent : ∀ k n a, .returned n a ∈ t.deedsOf k → ∃ i, (i, n, a) ∈ t.crew.sent
  once : ∀ k l n a b, .returned n a ∈ t.deedsOf k → .returned n b ∈ t.deedsOf l → k = l ∧ a = b

end Traffic

namespace Deed

theorem countP_returns_eq_zero {ds : List (Deed α)} (h : returnedIn ds = []) (n : Nat) : ds.countP (returns n) = 0 := by
  rw [List.countP_eq_zero]
  intro d hd hn
  cases d with
  | returned m a =>
    have hmem : a ∈ returnedIn ds := List.mem_map.mpr ⟨(m, a), List.mem_filterMap.mpr ⟨_, hd, rfl⟩, rfl⟩
    rw [h] at hmem
    cases hmem
  | _ => cases hn

theorem countP_drops_eq_zero {ds : List (Deed α)} (h : droppedIn ds = []) (n : Nat) : ds.countP (drops n) = 0 := by
  rw [List.countP_eq_zero]
  intro d hd hn
  cases d with
  | dropped m =>
    have hmem : m ∈ droppedIn ds := List.mem_filterMap.mpr ⟨_, hd, rfl⟩
    rw [h] at hmem
    cases hmem
  | _ => cases hn

end Deed

namespace Traffic

variable [BEq α] {t : Traffic σ α}

theorem Records.wait (h : t.Records) {k : Nat} {call : Call σ α} {r : Reply σ α} {flag : Nat}
    (hk : t.calls[k]? = some (some ⟨call, .done r⟩)) (hc : call.purpose = .waits flag) :
    Deed.returnedIn (t.deedsOf k) = r.taken ∧ Deed.droppedIn (t.deedsOf k) = [] := by
  have hr : r.Fits call (t.deedsOf k) (t.probesOf k) := h.fits k _ hk
  have hdropped := hr.dropped
  refine ⟨by simp [hr.returned, Call.handed, hc], ?_⟩
  rwa [if_neg (by simp [hc])] at hdropped

theorem Signals.interruptible (h : t.Signals) (hrec : t.Records) : t.Interruptible := by
  refine ⟨?_, h.raised, h.genuine, ?_, ?_, ?_, fun k call r flag hk => hrec.wait hk, ?_, ?_, ?_⟩
  · intro flag
    exact (Nat.le_add_right ..).trans (h.bounded flag)
  · intro i j k l flag hij hi hj
    exact h.genuine.between hij hi hj
  · intro k call r flag hk hc
    have hcourse := Reply.Fits.course (hrec.fits k _ hk)
    simpa only [hc] using hcourse
  · intro k call r hk hr
    exact Reply.Fits.spared (hrec.fits k _ hk) hr
  · intro k call r flag hk hc htaken n
    obtain ⟨hreturned, hdropped⟩ := hrec.wait hk hc
    have hconsumes : (t.deedsOf k).countP (Deed.claims n) = _ := hrec.consumes k _ hk n
    rw [hconsumes, Deed.countP_returns_eq_zero (hreturned.trans htaken), Deed.countP_drops_eq_zero hdropped]
    rfl
  · intro k n a hmem
    exact hrec.custody.strung.item_eq_some.mp (hrec.custody.genuine k n a (mem_log.mpr hmem))
  · intro k l n a b hk hl
    have hk' : (k, n, a) ∈ t.crew.returned := Crew.mem_returned.mpr (mem_log.mpr hk)
    have hl' : (l, n, b) ∈ t.crew.returned := Crew.mem_returned.mpr (mem_log.mpr hl)
    cases List.inj_on_of_nodup_map hrec.custody.nodup_returned hk' hl' rfl
    exact ⟨rfl, rfl⟩

end Traffic

/-- Whatever calls of a queue wait with the same flags, and however their accesses interleave with those of others, with
    signals and with the clock: a signal ends one wait at most, and loses no element. -/
theorem interrupts_cost_nothing [BEq α] (n m : Nat) (es : List (Traffic.Event σ α)) :
    ((Traffic.start n m).run es).Interruptible ∧ ∀ flag,
      ((Traffic.start n m).run es).journal.countP (Mark.raises flag) ≤ es.countP (Traffic.Event.raises flag) := by
  constructor
  · have hrun := Traffic.run_keeps Traffic.signals_step (t := Traffic.start n m)
      ⟨Traffic.records_start n m, Traffic.signals_start n m⟩ es
    exact hrun.2.interruptible hrun.1
  · intro flag
    simpa [Traffic.start] using Traffic.raises_run (Traffic.start n m) es flag

/-- Two waits have both read the flag as raised. The one signal interrupts the wait that swaps first. -/
example :
    let t := (Traffic.start 2 1 : Traffic Unit Nat).run [.begin 0 () (.take 0), .begin 1 () (.take 0), .turn 0, .turn 0,
      .turn 1, .turn 1, .interrupt 0, .turn 0, .turn 1, .turn 1, .turn 0]
    t.calls.map (interruptedBy 0) = [false, true] ∧
      t.probesOf 0 = [.tried none, .looked 0 true, .swapped 0 false] := by decide

end BusyWait
