import BusyWait.Word.Access

/-
  BusyWait.Proofs.Word.Counts — what a word in order says, and what each access makes of it.

  A word is in order if it is the sum of a number of readers that fits below the writer's
  bit and of that bit. Counting and flag then never carry into each other:
  - `Entry.step_cases`: a reader on its way in changes the word only by the swap that lets
    it in, and then the word it swapped had room and no writer (`Entry.Fit`).
  - `Session.step_cases`: a writer changes the word only by the swap that sets the bit, and
    ends only on a word that is exactly that bit.
  - `Counts.release`, `Counts.unblock`: neither breaks off where a reader, or the bit, is
    counted.
-/

namespace BusyWait

namespace Word

/-- `n` readers are counted, and `b` says whether the writer's bit is set. -/
structure Counts (w : Word) (n : Nat) (b : Bool) : Prop where
  bits : w.bits.toNat = n + if b then 0x40000000 else 0
  lt : n < 0x40000000

theorem counts_free : free.Counts 0 false := ⟨rfl, by omega⟩

namespace Counts

variable {w : Word} {n : Nat} {b : Bool}

theorem writerPending (h : w.Counts n b) : w.writerPending = b := by
  have hb := h.bits
  have hl := h.lt
  rw [Bool.eq_iff_iff, writerPending_iff]
  cases b <;> simp at hb ⊢ <;> omega

theorem readers (h : w.Counts n b) : w.readers.toNat = n := by
  have hb := h.bits
  have hl := h.lt
  rw [toNat_readers]
  cases b <;> simp at hb <;> omega

theorem enter (h : w.Counts n false) (hn : w.readers < maxReaders) : w.enter.Counts (n + 1) false := by
  have hb := h.bits
  have hl : w.readers.toNat < maxReaders.toNat := UInt32.lt_iff_toNat_lt.mp hn
  rw [h.readers, toNat_maxReaders] at hl
  refine ⟨?_, by omega⟩
  rw [toNat_enter]
  simp at hb ⊢
  omega

theorem leave (h : w.Counts (n + 1) b) : w.leave.Counts n b := by
  have hb := h.bits
  have hl := h.lt
  refine ⟨?_, by omega⟩
  rw [toNat_leave]
  cases b <;> simp at hb ⊢ <;> omega

theorem raise (h : w.Counts n b) : w.raise.Counts n true := by
  have hb := h.bits
  have hl := h.lt
  refine ⟨?_, hl⟩
  rw [toNat_raise]
  cases b <;> simp at hb ⊢ <;> split <;> omega

theorem lower (h : w.Counts n b) : w.lower.Counts n false := by
  have hb := h.bits
  have hl := h.lt
  refine ⟨?_, hl⟩
  rw [toNat_lower]
  cases b <;> simp at hb ⊢ <;> split <;> omega

/-- The word is exactly the bit if and only if nobody is counted and the bit is set. -/
theorem eq_owned_iff (h : w.Counts n b) : w = owned ↔ n = 0 ∧ b = true := by
  have hb := h.bits
  have hl := h.lt
  rw [Word.eq_owned_iff]
  cases b <;> simp at hb ⊢ <;> omega

theorem release (h : w.Counts (n + 1) b) : w.release = (w.leave, .ok ()) := by
  have hr : w.readers ≠ 0 := by
    intro e
    have := h.readers
    rw [e] at this
    cases this
  simp [Word.release, hr]

theorem unblock (h : w.Counts n true) : w.unblock = (w.lower, .ok ()) := by
  simp [Word.unblock, h.writerPending]

end Counts

end Word

namespace Entry

/-- A swap is tried only of a word that was seen to have room and no writer. -/
def Fit : Entry → Prop
  | .look => True
  | .swap seen _ => seen.writerPending = false ∧ seen.readers < Word.maxReaders

/-- What a reader decides: to try a swap that is fit, or to stay out. -/
theorem judge_cases (seen : Word) (n : UInt32) :
    (∃ e, judge seen n = .more e ∧ e.Fit) ∨ judge seen n = .done (.ok false) ∨
      ∃ f, judge seen n = .done (.error f) := by
  unfold judge
  by_cases hp : seen.writerPending = true
  · exact .inr (.inl (by rw [if_pos hp]))
  rw [if_neg hp]
  by_cases hm : seen.readers < Word.maxReaders
  · rw [if_pos hm]
    exact .inl ⟨_, rfl, by simpa using hp, hm⟩
  · rw [if_neg hm]
    exact .inr (.inr ⟨_, rfl⟩)

/-- The word changes only by the swap that lets the reader in. -/
theorem step_cases {e : Entry} (he : e.Fit) (w : Word) :
    (∃ e', e.step w = (w, .more e') ∧ e'.Fit) ∨ e.step w = (w, .done (.ok false)) ∨
      (∃ f, e.step w = (w, .done (.error f))) ∨
      (e.step w = (w.enter, .done (.ok true)) ∧ w.writerPending = false ∧ w.readers < Word.maxReaders) := by
  have stay : ∀ n, (∃ e', (w, judge w n) = (w, .more e') ∧ e'.Fit) ∨ (w, judge w n) = (w, .done (.ok false)) ∨
      ∃ f, (w, judge w n) = (w, .done (.error f)) := by
    intro n
    simpa using judge_cases w n
  cases e with
  | look =>
    rcases stay 0 with h | h | h
    · exact .inl h
    · exact .inr (.inl h)
    · exact .inr (.inr (.inl h))
  | swap seen n =>
    by_cases hw : w = seen
    · subst hw
      exact .inr (.inr (.inr ⟨by simp [step], he⟩))
    simp only [step, if_neg hw]
    cases next? n with
    | none => exact .inr (.inr (.inl ⟨_, rfl⟩))
    | some m =>
      rcases stay m with h | h | h
      · exact .inl h
      · exact .inr (.inl h)
      · exact .inr (.inr (.inl h))

/-- Of a word that is the writer's alone a reader is turned away, or its count of failures does
    not fit any more. -/
theorem step_owned {e : Entry} (he : e.Fit) :
    e.step .owned = (.owned, .done (.ok false)) ∨ e.step .owned = (.owned, .done (.error .sumOverflow)) := by
  have hp : Word.owned.writerPending = true := by decide
  have hj : ∀ n, judge .owned n = .done (.ok false) := fun n => by simp [judge, hp]
  cases e with
  | look => exact .inl (by rw [step, hj])
  | swap seen n =>
    have hne : Word.owned ≠ seen := by
      rintro rfl
      rw [he.1] at hp
      cases hp
    simp only [step, if_neg hne]
    cases next? n with
    | none => exact .inr rfl
    | some m => exact .inl (by simp only [hj])

end Entry

namespace Session

/-- The writer's swap has succeeded. -/
def raised : Session → Bool
  | .request _ => false
  | .drain _ _ => true

/-- A weak swap may fail although the word is as it was seen. What is left to do then. -/
def stumble? (w : Word) : Session → Option (Progress Session Fault)
  | .request (.swap _ failures) =>
    match next? failures with
    | some n => some (.more (.request (.swap w n)))
    | none => some (.done .sumOverflow)
  | _ => none

/-- The word changes only by the swap that sets the bit, and the end is reached only on a
    word that is exactly the bit. -/
theorem step_cases (s : Session) (w : Word) :
    (∃ s', s.step w = (w, .more s') ∧ s'.raised = s.raised) ∨
      (∃ s', s.step w = (w.raise, .more s') ∧ s.raised = false ∧ s'.raised = true) ∨
      (∃ f, s.step w = (w, .done (.error f))) ∨
      (∃ r, s.step w = (w, .done (.ok r)) ∧ s.raised = true ∧ w = .owned) := by
  cases s with
  | request r =>
    cases r with
    | look => exact .inl ⟨_, rfl, rfl⟩
    | swap seen n =>
      by_cases hw : w = seen
      · exact .inr (.inl ⟨.drain n ⟨0⟩, by simp [step, Request.step, hw], rfl, rfl⟩)
      cases hn : next? n with
      | none => exact .inr (.inr (.inl ⟨.sumOverflow, by simp [step, Request.step, hw, hn]⟩))
      | some m => exact .inl ⟨.request (.swap w m), by simp [step, Request.step, hw, hn], rfl⟩
  | drain n d =>
    by_cases hw : w = .owned
    · exact .inr (.inr (.inr ⟨(n, d.yields), by simp [step, hw, Drain.step_owned], rfl, hw⟩))
    rcases Drain.step_busy hw d with ⟨d', hd⟩ | hd
    · exact .inl ⟨.drain n d', by simp only [step, hd], rfl⟩
    · exact .inr (.inr (.inl ⟨.sumOverflow, by simp only [step, hd]⟩))

/-- A swap that fails for no reason leaves the writer before its bit. -/
theorem stumble?_cases {s : Session} {w : Word} {p : Progress Session Fault} (h : s.stumble? w = some p) :
    s.raised = false ∧ ((∃ s', p = .more s' ∧ s'.raised = false) ∨ ∃ f, p = .done f) := by
  cases s with
  | drain n d => cases h
  | request r =>
    cases r with
    | look => cases h
    | swap seen n =>
      refine ⟨rfl, ?_⟩
      cases hn : next? n with
      | none =>
        simp only [stumble?, hn, Option.some.injEq] at h
        exact .inr ⟨_, h.symm⟩
      | some m =>
        simp only [stumble?, hn, Option.some.injEq] at h
        exact .inl ⟨_, h.symm, rfl⟩

end Session

end BusyWait
