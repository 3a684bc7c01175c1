import BusyWait.Proofs.Lock.Beside
import BusyWait.Proofs.Lock.Passage
import BusyWait.Proofs.Word.Misuse

/-
  BusyWait.Proofs.Lock.HalfOpen — an unblock of a striped lock that breaks off.

  An unblock clears the bits in order and stops at the first stripe whose bit is clear
  (`StripedLock.firstOpen`). Where that is the first of all, nothing has changed. Else the
  stripes before it are open now and those after it are as they were, and so it remains:
  the next unblock finds the first stripe open and stops there, no reader changes a bit
  that is not borrowed from, and a writer that waits has all stripes up to its own behind
  it (`Jammed`).

  With writers that block and unblock in turn it does not come to this. As long as no
  release borrows the words are in order, and where nobody waits the bits are all clear or
  all set (`Orderly`); so an unblock that breaks off does so at the first stripe.

  - `StripedLock.run_unblock`: an unblock of any words.
  - `Word.Steady`: what a reader's operation does to any word.
  - `unblock_half_open`: all this for every lock, every state and every run.
-/

namespace BusyWait

/-! ## An unblock alone -/

namespace Word

/-- A lowered word has lost the writer's bit and no other. -/
theorem bit_lower (w : Word) (b : Nat) : w.lower.bit b = (w.bit b && !decide (b = 30)) := by
  obtain ⟨hlow, hbit, htop⟩ := w.bits_lower
  have hbeyond : 31 < b → ∀ v : Word, v.bit b = false := by
    intro hb v
    have hpow : 2 ^ 32 ≤ 2 ^ b := Nat.pow_le_pow_right (by decide) hb
    exact Nat.testBit_lt_two_pow (Nat.lt_of_lt_of_le v.bits.toNat_lt hpow)
  rcases Nat.lt_trichotomy b 30 with hb | rfl | hb
  · have h := congrArg (Nat.testBit · b) hlow
    simp only [low, Nat.testBit_mod_two_pow, hb, decide_true, Bool.true_and] at h
    rw [bit, bit, h, decide_eq_false (by omega), Bool.not_false, Bool.and_true]
  · rw [hbit]
    simp
  · rw [decide_eq_false (by omega), Bool.not_false, Bool.and_true]
    obtain rfl | hb := Nat.eq_or_lt_of_le hb
    · exact htop
    · rw [hbeyond hb, hbeyond hb]

theorem lower_of_clear {w : Word} (h : w.bit 30 = false) : w.lower = w := by
  rw [lower, w.writerPending_eq, h]
  rfl

end Word

namespace StripedLock

/-- The first stripe whose bit is clear, or the number of stripes. -/
def firstOpen (l : StripedLock) : Nat := l.words.findIdx fun w => !w.bit 30

/-- With the bits of the first `k` stripes cleared. -/
def lowered (l : StripedLock) (k : Nat) : StripedLock :=
  ⟨l.words.mapIdx fun j w => if j < k then w.lower else w, by simpa using l.pos⟩

/-- Where two locks have the same words they are the same. -/
theorem ext_word {l l' : StripedLock} (hs : l'.words.size = l.words.size)
    (hw : ∀ j < l.words.size, l'.word j = l.word j) : l' = l := by
  obtain ⟨ws, _⟩ := l
  obtain ⟨ws', _⟩ := l'
  congr 1
  apply Array.ext hs
  intro j hj hj'
  have := hw j hj'
  simpa [word, hj, hj'] using this

variable (l : StripedLock)

@[simp] theorem size_lowered (k : Nat) : (l.lowered k).words.size = l.words.size := by simp [lowered]

theorem word_lowered (k : Nat) {j : Nat} (hj : j < l.words.size) :
    (l.lowered k).word j = if j < k then (l.word j).lower else l.word j := by
  simp [lowered, word, hj]

theorem firstOpen_le : l.firstOpen ≤ l.words.size := Array.findIdx_le_size

theorem lowered_zero : l.lowered 0 = l := by
  apply ext_word (l.size_lowered 0)
  intro j hj
  rw [l.word_lowered 0 hj, if_neg (Nat.not_lt_zero j)]

/-- One stripe further. -/
theorem lowered_succ {k : Nat} (hk : k < l.words.size) :
    (l.lowered k).put k (l.word k).lower = l.lowered (k + 1) := by
  apply ext_word (by simp)
  intro j hj
  rw [size_lowered] at hj
  rw [word_put _ _ _ _ (by simpa using hk), l.word_lowered _ hj, l.word_lowered _ hj]
  rcases Nat.lt_trichotomy j k with hjk | rfl | hjk
  · rw [if_neg (by omega), if_pos hjk, if_pos (by omega)]
  · rw [if_pos rfl, if_pos (by omega)]
  · rw [if_neg (by omega), if_neg (by omega), if_neg (by omega)]

/-- The stripes before the first open one are blocked. -/
theorem bit_of_lt_firstOpen {j : Nat} (hj : j < l.firstOpen) : (l.word j).bit 30 = true := by
  have hlt : j < l.words.size := Nat.lt_of_lt_of_le hj l.firstOpen_le
  have h := Array.not_of_lt_findIdx hj
  simpa [word, hlt] using h

theorem bit_firstOpen (h : l.firstOpen < l.words.size) : (l.word l.firstOpen).bit 30 = false := by
  have h' : (!(l.words[l.firstOpen]).bit 30) = true := Array.findIdx_getElem (w := h)
  simpa [word, h] using h'

/-- An unblock that has come to stripe `k`. -/
inductive Opening (l : StripedLock) : Nat → StripedLock × List Note → Task → Prop
  | intro {k : Nat} (hk : k ≤ l.firstOpen) (hlt : k < l.words.size) :
    Opening l (l.words.size - k) (l.lowered k, []) (.unblock k)

/-- What an unblock does with a lock. -/
def opened (l : StripedLock) : (StripedLock × List Note) × Progress Task Verdict :=
  ((l.lowered l.firstOpen, []),
    .done (if l.firstOpen < l.words.size then .failed .notBlocked else .finished))

theorem opening_onward {n : Nat} {s : StripedLock × List Note} {t : Task} (h : Opening l n s t) :
    Onward Lock.noted (fun s t => Lock.waits s.1 t) (Opening l) (· = l.opened) n s t := by
  obtain ⟨hk, hlt⟩ := h
  rename_i k
  have hword : (l.lowered k).word k = l.word k := by rw [l.word_lowered k hlt, if_neg (Nat.lt_irrefl k)]
  rcases Nat.eq_or_lt_of_le hk with hfirst | hbefore
  · -- the first stripe that is open: it stops here
    have hclear := l.bit_firstOpen (hfirst ▸ hlt)
    rw [← hfirst] at hclear
    have hw : ((l.lowered k).word k).unblock = (l.word k, .error .notBlocked) := by
      rw [hword, Word.unblock, Word.lower_of_clear hclear, Word.writerPending_eq, hclear]
      rfl
    have hstep := step_unblock_error hw
    rw [← hword, put_self _ (by simpa using hlt)] at hstep
    apply Onward.ends rfl (Lock.noted_eq hstep []) (by omega)
    rw [opened, ← hfirst, if_pos hlt]
    rfl
  · have hset := l.bit_of_lt_firstOpen hbefore
    have hw : ((l.lowered k).word k).unblock = ((l.word k).lower, .ok ()) := by
      rw [hword, Word.unblock, Word.writerPending_eq, hset]
      rfl
    have hstep : step (l.lowered k) (.unblock k) = (l.lowered (k + 1),
        if k + 1 < l.words.size then .more (.unblock (k + 1)) else .done .finished, []) := by
      simp only [step, hw, l.lowered_succ hlt, size_lowered]
    by_cases hnext : k + 1 < l.words.size
    · rw [if_pos hnext] at hstep
      exact .goes rfl (Lock.noted_eq hstep []) (by omega) (.intro hbefore hnext)
    · have hlast : l.firstOpen = k + 1 := by
        have := l.firstOpen_le
        omega
      rw [if_neg hnext] at hstep
      apply Onward.ends rfl (Lock.noted_eq hstep []) (by omega)
      rw [opened, hlast, if_neg hnext]
      rfl

theorem run_unblock : Lock.run l (Lock.unblock l) = l.opened := by
  have hstart : Opening l (l.words.size - 0) (l, []) (.unblock 0) := by
    have h := Opening.intro (l := l) (Nat.zero_le _) l.pos
    rwa [lowered_zero] at h
  exact alone_ends (opening_onward l) hstart (by simp [Lock.bound]; omega)

/-- Stripe `i` is the first that is open. -/
structure OpensAt (l : StripedLock) (i : Nat) : Prop where
  lt : i < l.words.size
  clear : (l.word i).bit 30 = false
  before : ∀ j < i, (l.word j).bit 30 = true

theorem OpensAt.firstOpen {l : StripedLock} {i : Nat} (h : l.OpensAt i) : l.firstOpen = i := by
  rcases Nat.lt_trichotomy l.firstOpen i with hlt | heq | hgt
  · have hclear := l.bit_firstOpen (Nat.lt_trans hlt h.lt)
    rw [h.before _ hlt] at hclear
    cases hclear
  · exact heq
  · have hset := l.bit_of_lt_firstOpen hgt
    rw [h.clear] at hset
    cases hset

/-- `l'` is `l` with the writer's bit cleared at the stripes before `i`, and no other bit. -/
def Opened (l l' : StripedLock) (i : Nat) : Prop :=
  l'.words.size = l.words.size ∧
    ∀ j < l.words.size, ∀ b, (l'.word j).bit b = ((l.word j).bit b && !decide (j < i ∧ b = 30))

theorem opened_lowered (i : Nat) : l.Opened (l.lowered i) i := by
  refine ⟨l.size_lowered i, ?_⟩
  intro j hj b
  rw [l.word_lowered i hj]
  by_cases hji : j < i
  · rw [if_pos hji, Word.bit_lower]
    simp [hji]
  · rw [if_neg hji, decide_eq_false fun h => hji h.1, Bool.not_false, Bool.and_true]

end StripedLock

/-! ## Readers -/

namespace Word

/-- Readers have come and gone, none more than there were; while a writer is there, none has come. -/
structure Steady (w w' : Word) : Prop where
  pending : w'.bit 30 = w.bit 30
  top : w'.bit 31 = w.bit 31
  fewer : w.bit 30 = true → w'.low ≤ w.low

namespace Steady

theorem refl (w : Word) : w.Steady w := ⟨rfl, rfl, fun _ => Nat.le_refl _⟩

theorem trans {u v w : Word} (h : u.Steady v) (h' : v.Steady w) : u.Steady w where
  pending := h'.pending.trans h.pending
  top := h'.top.trans h.top
  fewer hu := Nat.le_trans (h'.fewer (h.pending.trans hu)) (h.fewer hu)

theorem tryEnter (w : Word) : w.Steady w.tryEnter.1 := by
  unfold Word.tryEnter
  by_cases hp : w.writerPending = true
  · rw [if_pos hp]
    exact .refl w
  rw [if_neg hp]
  by_cases hr : w.readers < maxReaders
  · rw [if_pos hr]
    obtain ⟨-, -, hpending, htop⟩ := bits_enter (w.readers_lt_max.mp hr)
    refine ⟨hpending, htop, ?_⟩
    intro h
    rw [w.writerPending_eq] at hp
    exact absurd h hp
  · rw [if_neg hr]
    exact .refl w

theorem attempts (w : Word) (n : Nat) : w.Steady (w.attempts n).1 := by
  induction n generalizing w with
  | zero => exact .refl w
  | succ n ih =>
    have hfirst := tryEnter w
    unfold Word.attempts
    generalize w.tryEnter = e at hfirst
    obtain ⟨v, f | b⟩ := e
    · exact hfirst
    · exact hfirst.trans (ih v)

/-- A release that finds a reader. -/
theorem release {w : Word} (h : w.release.2 = .ok ()) : w.Steady w.release.1 := by
  have hlow : w.low ≠ 0 := by
    intro h0
    rw [Word.release, if_pos (w.readers_eq_zero.mpr h0)] at h
    cases h
  obtain ⟨hleft, hpending, htop⟩ := w.bits_leave
  refine ⟨?_, ?_, ?_⟩
  · exact not_not.mp fun he => hlow (hpending.mp he)
  · exact not_not.mp fun he => hlow (htop.mp he).1
  · intro _
    have hlt : w.low < 2 ^ 30 := Nat.mod_lt _ (by decide)
    show w.leave.low ≤ w.low
    omega

theorem releases {w : Word} {n : Nat} (h : (w.releases n).2 = none) : w.Steady (w.releases n).1 := by
  induction n generalizing w with
  | zero => exact .refl w
  | succ n ih =>
    have hfirst := release (w := w)
    unfold Word.releases at h ⊢
    generalize w.release = e at h hfirst
    obtain ⟨v, f | _⟩ := e
    · cases h
    · exact (hfirst rfl).trans (ih h)

end Steady

/-- Releases break off at a word without readers only. -/
theorem releases_fault {w : Word} {n : Nat} {f : Fault} (h : (w.releases n).2 = some f) : f = .noReaders := by
  induction n generalizing w with
  | zero => cases h
  | succ n ih =>
    unfold Word.releases Word.release at h
    split at h
    · rename_i hr
      split at hr
      · cases hr
        cases h
        rfl
      · cases hr
    · exact ih h

end Word

end BusyWait

namespace BusyWait.LockStep.Locks

open StripedLock (Task)

/-- What a reader's operation makes of a word, unless it releases what is not there. -/
theorem served_steady (op : Op) (w : Word) (h : (op.served w).2 ≠ .fault .noReaders) : w.Steady (op.served w).1 := by
  have enters : ∀ k, w.Steady (enterWord w k).1 := by
    intro k
    cases k with
    | none => exact .tryEnter w
    | some n => exact .attempts w n
  have leaves : ∀ n, (leaveWord w n).2 ≠ .fault .noReaders → w.Steady (leaveWord w n).1 := by
    intro n hn
    apply Word.Steady.releases
    cases hf : (w.releases n).2 with
    | none => rfl
    | some f =>
      rw [leaveWord, hf, Word.releases_fault hf] at hn
      exact absurd rfl hn
  cases op with
  | enter k | enterAt _ k => exact enters k
  | read _ => exact enters none
  | leave n | leaveAt _ n => exact leaves n h
  | drop _ => exact leaves 1 h
  | _ => exact .refl w

/-! ## The kinds of operations -/

section
variable {L T : Type} [Lock L T]

/-- The operation unblocks. -/
def State.opens (s : State L T) (t : Thread) : Op → Bool
  | .unblock => true
  | .drop g =>
    match s.guard? t g with
    | some ⟨_, _, .write⟩ => true
    | _ => false
  | _ => false

theorem State.perform_blocks (s : State L T) (t : Thread) {op : Op} (h : op.blocks = true) :
    ∃ g, s.perform t op = s.block t g := by
  cases op with
  | block => exact ⟨none, rfl⟩
  | write g => exact ⟨some g, rfl⟩
  | _ => cases h

/-- After an operation the writers go on. -/
theorem stepOf_state (strict : Bool) (s : State L T) (t : Thread) (op : Op) : (s.stepOf strict t op).1 =
    ((s.attemptOf strict t op).1.settle ((s.attemptOf strict t op).1.waiting.length + 1)).1 := rfl

theorem stepOf_reply (strict : Bool) (s : State L T) (t : Thread) (op : Op) :
    (s.stepOf strict t op).2.reply = (s.attemptOf strict t op).2.1 := rfl

section
variable {I : L → Prop} {P : T → Prop} {s : State L T}

/-- What a writer keeps of the lock and of its task as far as it gets. -/
theorem advance_keeps (hrun : ∀ l t, I l → P t → I (Lock.run l t).1.1 ∧ ∀ t', (Lock.run l t).2 = .more t' → P t')
    (hl : I s.lock) (hw : ∀ v ∈ s.waiting, P v.task) {w : Writer T} (ht : P w.task) :
    I (s.advance w).1.lock ∧ ∀ v ∈ (s.advance w).1.waiting, P v.task := by
  obtain ⟨hl', ht'⟩ := hrun s.lock w.task hl ht
  unfold State.advance
  rcases hr : Lock.run s.lock w.task with ⟨⟨l, ns⟩, task | v⟩
  · rw [State.run_eq hr]
    rw [hr] at hl' ht'
    refine ⟨hl', ?_⟩
    intro v hv
    rcases List.mem_append.mp hv with hv | hv
    · exact hw v hv
    · rw [List.mem_singleton.mp hv]
      exact ht' task rfl
  · rw [State.run_eq hr]
    rw [hr] at hl'
    cases v with
    | finished =>
      obtain ⟨hlock, hwaiting⟩ := lock_hold { s with lock := l, team := s.team.note w.thread ns } w.thread w.guard
      show I (State.hold _ w.thread w.guard).lock ∧ ∀ v ∈ (State.hold _ w.thread w.guard).waiting, P v.task
      rw [hlock, hwaiting]
      exact ⟨hl', hw⟩
    | _ => exact ⟨hl', hw⟩

theorem advanceEach_keeps
    (hrun : ∀ l t, I l → P t → I (Lock.run l t).1.1 ∧ ∀ t', (Lock.run l t).2 = .more t' → P t') {ws : List (Writer T)}
    (done : List Finished) (hl : I s.lock) (hw : ∀ v ∈ s.waiting, P v.task) (hws : ∀ w ∈ ws, P w.task) :
    I (advanceEach s done ws).1.lock ∧ ∀ v ∈ (advanceEach s done ws).1.waiting, P v.task := by
  induction ws generalizing s done with
  | nil => exact ⟨hl, hw⟩
  | cons w ws ih =>
    obtain ⟨hfirst, hrest⟩ := List.forall_mem_cons.mp hws
    obtain ⟨hl', hw'⟩ := advance_keeps hrun hl hw hfirst
    exact ih _ hl' hw' hrest

/-- So do all that go on. -/
theorem settle_keeps (hrun : ∀ l t, I l → P t → I (Lock.run l t).1.1 ∧ ∀ t', (Lock.run l t).2 = .more t' → P t')
    (hl : I s.lock) (hw : ∀ w ∈ s.waiting, P w.task) (m : Nat) :
    I (s.settle m).1.lock ∧ ∀ w ∈ (s.settle m).1.waiting, P w.task := by
  induction m generalizing s with
  | zero => exact ⟨hl, hw⟩
  | succ m ih =>
    have hlock : I ({ s with waiting := [] } : State L T).lock := hl
    have hnone : ∀ v ∈ ({ s with waiting := [] } : State L T).waiting, P v.task := List.forall_mem_nil _
    obtain ⟨hl', hw'⟩ := advanceEach_keeps hrun [] hlock hnone hw
    exact ih (s := s.advanceAll.1) hl' hw'

end

end

section
variable {n : Nat} {s : State StripedLock Task} {t : Thread} {op : Op}

/-- An operation that unblocks. -/
theorem perform_opens (h : s.opens t op = true) : (s.perform t op).1.lock = s.lock.lowered s.lock.firstOpen ∧
    (s.perform t op).1.waiting = s.waiting ∧
      (s.perform t op).2.1 = if s.lock.firstOpen < s.lock.words.size then .fault .notBlocked else .done := by
  have hunblock : ∀ s' : State StripedLock Task, s'.lock = s.lock → s'.waiting = s.waiting →
      (s'.unblock t).1.lock = s.lock.lowered s.lock.firstOpen ∧ (s'.unblock t).1.waiting = s.waiting ∧
        (s'.unblock t).2 = if s.lock.firstOpen < s.lock.words.size then .fault .notBlocked else .done := by
    intro s' hl hw
    have hrun := s'.lock.run_unblock
    unfold State.unblock
    rw [State.run_eq hrun, hl]
    refine ⟨rfl, hw, ?_⟩
    show State.reply .done (.done (if s.lock.firstOpen < s.lock.words.size then _ else _)) = _
    split <;> rfl
  cases op with
  | unblock => exact hunblock s rfl rfl
  | drop g =>
    rcases hg : s.guard? t g with _ | ⟨u, name, _ | _⟩
    · simp [State.opens, hg] at h
    · simp [State.opens, hg] at h
    · simp only [State.perform, hg]
      exact hunblock { s with guards := s.guards.erase ⟨u, name, .write⟩ } rfl rfl
  | _ => cases h

/-- An operation that is neither a reader's nor a writer's. -/
theorem perform_idle (hserved : s.served? t op = none) (hblocks : op.blocks = false) (hopens : s.opens t op = false) :
    (s.perform t op).1.lock = s.lock ∧ (s.perform t op).1.waiting = s.waiting := by
  cases op with
  | drop g =>
    rcases hg : s.guard? t g with _ | ⟨u, name, _ | _⟩
    · simp only [State.perform, hg, and_self]
    · simp [State.served?, hg] at hserved
    · simp [State.opens, hg] at hopens
  | formatGuard g f => cases hg : s.guard? t g <;> simp only [State.perform, hg, and_self]
  | unblock => cases hopens
  | block | write _ => cases hblocks
  | enter _ | leave _ | read _ | enterAt _ _ | leaveAt _ _ => cases hserved
  | _ => exact ⟨rfl, rfl⟩

end

/-! ## Writers that wait -/

section
variable {n : Nat} {s : State StripedLock Task} {t : Thread} {op : Op}

/-- A writer that waits at a stripe whose bit it has set. -/
def Suspended (n : Nat) (task : Task) : Prop := ∃ m < n + 1, task = .block m (.drain 0 ⟨0⟩) 0

/-- A lock of so many stripes, and writers that are in the middle of a block. -/
structure Stalled (n : Nat) (s : State StripedLock Task) : Prop where
  size : s.lock.words.size = n + 1
  writers : ∀ w ∈ s.waiting, Suspended n w.task

theorem run_gone {l : StripedLock} (hl : l.words.size = n + 1) {k : Nat} {σ : Session} {r : Nat} (hk : k < n + 1)
    (hσ : σ.Alone (l.word k) r) : (Lock.run l (.block k σ 0)).1.1.words.size = n + 1 ∧
      ∀ t', (Lock.run l (Task.block k σ 0)).2 = .more t' → Suspended n t' := by
  have hgone := (StripedLock.notes n).run_block hl hk hσ
  change Worded.Notes.Gone (StripedLock.worded n) k (Lock.run l (.block k σ 0)) at hgone
  generalize Lock.run l (.block k σ 0) = e at hgone
  cases hgone with
  | @waits l' ns m hl' _ hm =>
    refine ⟨hl', ?_⟩
    intro t' ht'
    cases ht'
    exact ⟨m, hm, rfl⟩
  | through hl' =>
    refine ⟨hl', ?_⟩
    intro t' ht'
    cases ht'

theorem Stalled.same {s' : State StripedLock Task} (h : Stalled n s) (hl : s'.lock.words.size = s.lock.words.size)
    (hw : s'.waiting = s.waiting) : Stalled n s' :=
  ⟨hl.trans h.size, by rw [hw]; exact h.writers⟩

theorem Stalled.block (h : Stalled n s) (t : Thread) (g : Option String) : Stalled n (s.block t g).1 := by
  have hstart : Task.block 0 .start 0 = Lock.block s.lock := rfl
  obtain ⟨hsize, hmore⟩ := run_gone h.size (Nat.succ_pos n) .start
  rw [hstart] at hsize hmore
  unfold State.block
  rcases hr : Lock.run s.lock (Lock.block s.lock) with ⟨⟨l, ns⟩, task | v⟩
  · rw [State.run_eq hr]
    rw [hr] at hsize hmore
    refine ⟨hsize, ?_⟩
    intro w hw
    rcases List.mem_append.mp hw with hw | hw
    · exact h.writers w hw
    · rw [List.mem_singleton.mp hw]
      exact hmore task rfl
  · rw [State.run_eq hr]
    rw [hr] at hsize
    have hrest : Stalled n { s with lock := l, team := s.team.note t ns } := ⟨hsize, h.writers⟩
    cases v with
    | finished =>
      obtain ⟨hlock, hwaiting⟩ := lock_hold { s with lock := l, team := s.team.note t ns } t g
      exact hrest.same (by rw [hlock]) hwaiting
    | _ => exact hrest

theorem Stalled.settle (h : Stalled n s) (m : Nat) : Stalled n (s.settle m).1 := by
  obtain ⟨hsize, hwriters⟩ := settle_keeps (I := fun l : StripedLock => l.words.size = n + 1) (P := Suspended n)
    (fun l t hl ht => by
      obtain ⟨k, hk, rfl⟩ := ht
      exact run_gone hl hk .drain) h.size h.writers m
  exact ⟨hsize, hwriters⟩

theorem Stalled.perform (h : Stalled n s) (t : Thread) (op : Op) : Stalled n (s.perform t op).1 := by
  cases hserved : s.served? t op with
  | some i =>
    obtain ⟨s', hrun, hs'⟩ := perform_served h.size hserved
    rw [hrun]
    exact h.same (by rw [hs'.lock, StripedLock.size_put]) hs'.waiting
  | none =>
    cases hopens : s.opens t op with
    | true =>
      obtain ⟨hlock, hwaiting, -⟩ := perform_opens hopens
      exact h.same (by rw [hlock, StripedLock.size_lowered]) hwaiting
    | false =>
      cases hblocks : op.blocks with
      | false =>
        obtain ⟨hlock, hwaiting⟩ := perform_idle hserved hblocks hopens
        exact h.same (by rw [hlock]) hwaiting
      | true =>
        obtain ⟨g, hg⟩ := s.perform_blocks t hblocks
        rw [hg]
        exact h.block t g

/-- What an operation does before the writers go on, if it is not refused. -/
theorem attempt_refused_or (strict : Bool) (s : State StripedLock Task) (t : Thread) (op : Op) :
    (∃ r, (s.refuse strict t op).2 = some r ∧ (s.attemptOf strict t op).2.1 = .refused r ∧
        (s.attemptOf strict t op).1.lock = s.lock ∧ (s.attemptOf strict t op).1.waiting = s.waiting) ∨
      (s.refuse strict t op).2 = none ∧ s.attemptOf strict t op = (s.ready t op).perform t op := by
  have hc := alike_consider s t op
  rcases attemptOf_cases strict s t op with ⟨s', r, href, hrun, rfl | rfl⟩ | ⟨href, hrun⟩
  · exact .inl ⟨r, by rw [href], by rw [hrun], by rw [hrun], by rw [hrun]⟩
  · exact .inl ⟨r, by rw [href], by rw [hrun], by rw [hrun]; exact hc.lock, by rw [hrun]; exact hc.waiting⟩
  · exact .inr ⟨by rw [href], hrun⟩

theorem Stalled.step (h : Stalled n s) (strict : Bool) (t : Thread) (op : Op) : Stalled n (s.stepOf strict t op).1 := by
  have hattempt : Stalled n (s.attemptOf strict t op).1 := by
    rcases attempt_refused_or strict s t op with ⟨r, -, -, hlock, hwaiting⟩ | ⟨-, hrun⟩
    · exact h.same (by rw [hlock]) hwaiting
    · have ha := s.alike_ready t op
      rw [hrun]
      exact (h.same (by rw [ha.lock]) ha.waiting).perform t op
  rw [stepOf_state]
  exact hattempt.settle _

theorem Stalled.run (h : Stalled n s) (strict : Bool) (ops : List (Thread × Op)) :
    Stalled n (s.runOf strict ops).1 := by
  induction ops generalizing s with
  | nil => exact h
  | cons e ops ih => exact ih (h.step strict e.1 e.2)

end

/-! ## With the first stripe open -/

section
variable {n : Nat} {l l' : StripedLock} {t : Task}

/-- The first stripe is open, and these are blocked. -/
structure Ajar (n : Nat) (shut : Nat → Prop) (l : StripedLock) : Prop where
  size : l.words.size = n + 1
  first : (l.word 0).bit 30 = false
  bits : ∀ j < n + 1, shut j → (l.word j).bit 30 = true

/-- A writer that has the first stripe behind it. -/
def Past : Task → Prop
  | .block k s _ => 0 < k ∨ s.raised = true
  | _ => False

theorem Suspended.past (h : Suspended n t) : Past t := by
  obtain ⟨m, -, rfl⟩ := h
  exact .inr rfl

variable {shut : Nat → Prop}

/-- Another word in place of one of them, with the same bit, or with it set after the first stripe. -/
theorem Ajar.put (h : Ajar n shut l) {k : Nat} {w : Word}
    (hw : w.bit 30 = (l.word k).bit 30 ∨ 0 < k ∧ w.bit 30 = true) : Ajar n shut (l.put k w) := by
  have hword : ∀ j < n + 1, (l.put k w).word j = if k = j then w else l.word j := by
    intro j hj
    by_cases hk : k = j
    · subst hk
      rw [StripedLock.word_put _ _ _ _ (h.size ▸ hj)]
    · rw [StripedLock.word_put_of_ne _ hk, if_neg hk]
  refine ⟨(StripedLock.size_put l k w).trans h.size, ?_, ?_⟩
  · rw [hword 0 (Nat.succ_pos n)]
    split
    · rename_i hk
      rcases hw with hw | ⟨hpos, -⟩
      · rw [hw, hk]
        exact h.first
      · omega
    · exact h.first
  · intro j hj hshut
    rw [hword j hj]
    split
    · rename_i hk
      rcases hw with hw | ⟨-, hw⟩
      · rw [hw, hk]
        exact h.bits j hj hshut
      · exact hw
    · exact h.bits j hj hshut

/-- A writer that goes on raises bits after the first stripe only. -/
theorem Ajar.step_past (h : Ajar n shut l) (ht : Past t) :
    Ajar n shut (StripedLock.step l t).1 ∧ ∀ t', (StripedLock.step l t).2.1 = .more t' → Past t' := by
  cases t with
  | enter i e m => exact ht.elim
  | leave i => exact ht.elim
  | unblock k => exact ht.elim
  | block k s m =>
    rcases s.step_cases (l.word k) with ⟨s', hs, hr⟩ | ⟨s', hs, hr, hr'⟩ | ⟨f, hs⟩ | ⟨⟨f, y⟩, hs, -, -⟩
    · simp only [StripedLock.step, hs]
      refine ⟨h.put (.inl rfl), ?_⟩
      intro t' ht'
      cases ht'
      exact ht.imp_right hr.trans
    · -- the swap that sets the bit is not one of the first stripe
      have hpos : 0 < k := ht.resolve_right (by simp [hr])
      simp only [StripedLock.step, hs]
      refine ⟨h.put (.inr ⟨hpos, (l.word k).bits_raise.2.1⟩), ?_⟩
      intro t' ht'
      cases ht'
      exact .inl hpos
    · simp only [StripedLock.step, hs]
      refine ⟨h.put (.inl rfl), ?_⟩
      intro t' ht'
      cases ht'
    · simp only [StripedLock.step, hs]
      refine ⟨?_, ?_⟩
      · split
        · split <;> exact h.put (.inl rfl)
        · exact h.put (.inl rfl)
      · intro t' he
        split at he
        · split at he
          · cases he
            exact .inl (Nat.succ_pos k)
          · cases he
        · cases he

theorem Ajar.run_past (h : Ajar n shut l) (ht : Past t) :
    Ajar n shut (Lock.run l t).1.1 ∧ ∀ t', (Lock.run l t).2 = .more t' → Past t' := by
  refine alone_keeps (I := fun s : StripedLock × List Note => Ajar n shut s.1)
    (P := fun p : Progress Task Verdict => ∀ t', p = .more t' → Past t') ?_ h ?_
  · intro s t hs ht
    exact hs.step_past (ht _ rfl)
  · intro t' ht'
    cases ht'
    exact ht

end

section
variable {n : Nat} {shut : Nat → Prop} {s : State StripedLock Task} {t : Thread} {op : Op}

/-- The first stripe is open, and no writer that waits will block it. -/
structure Jammed (n : Nat) (shut : Nat → Prop) (s : State StripedLock Task) : Prop where
  lock : Ajar n shut s.lock
  writers : ∀ w ∈ s.waiting, Past w.task

theorem Jammed.same {s' : State StripedLock Task} (h : Jammed n shut s) (hl : s'.lock = s.lock)
    (hw : s'.waiting = s.waiting) : Jammed n shut s' :=
  ⟨by rw [hl]; exact h.lock, by rw [hw]; exact h.writers⟩

/-- The next unblock stops at once. -/
theorem Ajar.lowered {l : StripedLock} (h : Ajar n shut l) :
    l.firstOpen = 0 ∧ l.lowered l.firstOpen = l := by
  have hfirst : l.firstOpen = 0 := by
    by_contra hne
    have hset := l.bit_of_lt_firstOpen (Nat.pos_of_ne_zero hne)
    rw [h.first] at hset
    cases hset
  rw [hfirst]
  exact ⟨rfl, l.lowered_zero⟩

theorem Jammed.perform (h : Jammed n shut s) (hblocks : op.blocks = false)
    (hreply : (s.perform t op).2.1 ≠ .fault .noReaders) : Jammed n shut (s.perform t op).1 := by
  cases hserved : s.served? t op with
  | some i =>
    obtain ⟨s', hrun, hs'⟩ := perform_served h.lock.size hserved
    rw [hrun] at hreply ⊢
    refine ⟨?_, by rw [hs'.waiting]; exact h.writers⟩
    rw [hs'.lock]
    exact h.lock.put (.inl (served_steady op _ hreply).pending)
  | none =>
    cases hopens : s.opens t op with
    | true =>
      obtain ⟨hlock, hwaiting, -⟩ := perform_opens hopens
      exact h.same (by rw [hlock, h.lock.lowered.2]) hwaiting
    | false =>
      obtain ⟨hlock, hwaiting⟩ := perform_idle hserved hblocks hopens
      exact h.same hlock hwaiting

theorem Jammed.settle (h : Jammed n shut s) (m : Nat) : Jammed n shut (s.settle m).1 := by
  obtain ⟨hlock, hwriters⟩ := settle_keeps (I := Ajar n shut) (P := Past)
    (fun _ _ hl ht => hl.run_past ht) h.lock h.writers m
  exact ⟨hlock, hwriters⟩

/-- None of these operations starts a block or releases what is not there. -/
def Spares (strict : Bool) (s : State StripedLock Task) : List (Thread × Op) → Prop
  | [] => True
  | (t, op) :: ops => ((s.refuse strict t op).2 = none → op.blocks = false) ∧
      (s.stepOf strict t op).2.reply ≠ .fault .noReaders ∧ Spares strict (s.stepOf strict t op).1 ops

theorem Jammed.step (h : Jammed n shut s) {strict : Bool}
    (hblocks : (s.refuse strict t op).2 = none → op.blocks = false)
    (hreply : (s.stepOf strict t op).2.reply ≠ .fault .noReaders) : Jammed n shut (s.stepOf strict t op).1 := by
  have hattempt : Jammed n shut (s.attemptOf strict t op).1 := by
    rcases attempt_refused_or strict s t op with ⟨r, -, -, hlock, hwaiting⟩ | ⟨hnone, hrun⟩
    · exact h.same hlock hwaiting
    · have ha := s.alike_ready t op
      rw [stepOf_reply, hrun] at hreply
      rw [hrun]
      exact (h.same ha.lock ha.waiting).perform (hblocks hnone) hreply
  rw [stepOf_state]
  exact hattempt.settle _

theorem Jammed.run (h : Jammed n shut s) {strict : Bool} (ops : List (Thread × Op)) (hops : Spares strict s ops) :
    Jammed n shut (s.runOf strict ops).1 := by
  induction ops generalizing s with
  | nil => exact h
  | cons e ops ih => exact ih (h.step hops.1 hops.2.1) hops.2.2

end

/-! ## Words in order -/

section
variable {n : Nat} {l : StripedLock} {ws : List (Writer Task)}

/-- The locks of `n + 1` stripes. -/
abbrev striped (n : Nat) : Face StripedLock Task := (StripedLock.worded n).face

theorem striped_readers (l : StripedLock) (j : Nat) : (striped n).readers l j = (l.word j).low :=
  (l.word j).toNat_readers_eq

theorem striped_bit (l : StripedLock) (j : Nat) : (striped n).bit l j = (l.word j).bit 30 :=
  (l.word j).writerPending_eq

/-- A word is in order where its last bit is clear. -/
theorem counts_self_iff (w : Word) : w.Counts w.readers.toNat w.writerPending ↔ w.bit 31 = false := by
  have hw := w.bits.toNat_lt
  have hbits : w.Counts w.readers.toNat w.writerPending ↔
      w.bits.toNat = w.bits.toNat % 0x40000000 + if w.writerPending then 0x40000000 else 0 := by
    rw [w.toNat_readers]
    exact ⟨fun h => h.bits, fun h => ⟨h, Nat.mod_lt _ (by decide)⟩⟩
  rw [hbits, w.bit_top]
  by_cases hp : w.writerPending = true
  · have hp' := w.writerPending_iff.mp hp
    simp only [hp, if_true, decide_eq_false_iff_not]
    omega
  · have hp' := mt w.writerPending_iff.mpr hp
    simp only [hp, decide_eq_false_iff_not]
    simp only [Bool.false_eq_true, if_false]
    omega

theorem sane_iff : (striped n).Sane l ↔ l.words.size = n + 1 ∧ ∀ j < n + 1, (l.word j).bit 31 = false :=
  and_congr_right fun _ => forall₂_congr fun j _ => counts_self_iff (l.word j)

/-- Readers come and go. -/
theorem Mid.steady (h : Mid (striped n) l ws) {k : Nat} (hk : k < n + 1) {w : Word} (hw : (l.word k).Steady w) :
    Mid (striped n) (l.put k w) ws := by
  obtain ⟨hsane, hcase⟩ := h
  obtain ⟨hsize, htop⟩ := sane_iff.mp hsane
  have hword : ∀ j, (l.word j).Steady ((l.put k w).word j) := by
    intro j
    by_cases hkj : k = j
    · subst hkj
      rw [StripedLock.word_put _ _ _ _ (hsize ▸ hk), if_pos rfl]
      exact hw
    · rw [StripedLock.word_put_of_ne _ hkj]
      exact .refl _
  have hbit : ∀ j, (striped n).bit (l.put k w) j = (striped n).bit l j := by
    intro j
    rw [striped_bit, striped_bit, (hword j).pending]
  have hnone : ∀ j, (striped n).bit l j = true → (striped n).readers l j = 0 →
      (striped n).readers (l.put k w) j = 0 := by
    intro j hset h0
    rw [striped_bit] at hset
    rw [striped_readers] at h0 ⊢
    have := (hword j).fewer hset
    omega
  refine ⟨sane_iff.mpr ⟨(StripedLock.size_put l k w).trans hsize, fun j hj => (hword j).top.trans (htop j hj)⟩, ?_⟩
  rcases hcase with ⟨hws, hclear | ⟨hset, hempty⟩⟩ | ⟨hne, m, hm⟩
  · exact .inl ⟨hws, .inl fun j hj => (hbit j).trans (hclear j hj)⟩
  · exact .inl ⟨hws, .inr ⟨fun j hj => (hbit j).trans (hset j hj), fun j hj => hnone j (hset j hj) (hempty j hj)⟩⟩
  · refine .inr ⟨hne, m, hm.lt, hm.task, fun j hj => (hbit j).trans (hm.bits j hj), ?_⟩
    intro j hj
    apply hnone j _ (hm.before j hj)
    rw [hm.bits j (Nat.lt_trans hj hm.lt)]
    exact decide_eq_true (Nat.le_of_lt hj)

/-- Where nobody waits an unblock stops at the first stripe, or at none. -/
theorem Orderly.firstOpen (h : Orderly (striped n) l []) :
    (l.firstOpen = 0 ∧ l.lowered l.firstOpen = l) ∨
      l.firstOpen = l.words.size ∧ ∀ j < n + 1, ((l.lowered l.firstOpen).word j).bit 30 = false := by
  obtain ⟨hsane, ⟨-, hcalm⟩ | ⟨hne, -⟩⟩ := h
  · obtain ⟨hsize, -⟩ := sane_iff.mp hsane
    rcases hcalm with hclear | ⟨hset, -⟩
    · have hfirst := hclear 0 (Nat.succ_pos n)
      rw [striped_bit] at hfirst
      have hajar : Ajar n (fun _ => False) l := ⟨hsize, hfirst, fun _ _ h => h.elim⟩
      exact .inl hajar.lowered
    · have hall : l.firstOpen = l.words.size := by
        rcases Nat.lt_or_eq_of_le l.firstOpen_le with hlt | heq
        · have hopen := l.bit_firstOpen hlt
          rw [← striped_bit (n := n), hset _ (show l.firstOpen < n + 1 by omega)] at hopen
          cases hopen
        · exact heq
      refine .inr ⟨hall, ?_⟩
      intro j hj
      rw [hall, l.word_lowered _ (hsize ▸ hj), if_pos (hsize ▸ hj)]
      exact (l.word j).bits_lower.2.1
  · exact absurd rfl hne

end

section
variable {n : Nat} {s : State StripedLock Task} {t : Thread} {op : Op}

theorem perform_mid (h : Orderly (striped n) s.lock s.waiting) (hopens : s.opens t op = true → s.waiting = [])
    (hreply : (s.perform t op).2.1 ≠ .fault .noReaders) :
    Mid (striped n) (s.perform t op).1.lock (s.perform t op).1.waiting := by
  obtain ⟨hsize, htop⟩ := sane_iff.mp h.1
  cases hserved : s.served? t op with
  | some i =>
    obtain ⟨s', hrun, hs'⟩ := perform_served hsize hserved
    rw [hrun] at hreply ⊢
    rw [hs'.lock, hs'.waiting]
    exact h.mid.steady (i.slot_lt (Nat.succ_pos n)) (served_steady op _ hreply)
  | none =>
    cases ho : s.opens t op with
    | true =>
      have hws := hopens ho
      obtain ⟨hlock, hwaiting, -⟩ := perform_opens ho
      rw [hws] at h
      rw [hlock, hwaiting, hws]
      rcases h.firstOpen with ⟨-, hsame⟩ | ⟨hall, hclear⟩
      · rw [hsame]
        exact h.mid
      · refine ⟨sane_iff.mpr ⟨(s.lock.size_lowered _).trans hsize, ?_⟩, .inl ⟨rfl, .inl ?_⟩⟩
        · intro j hj
          rw [s.lock.word_lowered _ (hsize ▸ hj)]
          split
          · exact (s.lock.word j).bits_lower.2.2.trans (htop j hj)
          · exact htop j hj
        · intro j hj
          rw [striped_bit]
          exact hclear j hj
    | false =>
      cases hblocks : op.blocks with
      | false =>
        obtain ⟨hlock, hwaiting⟩ := perform_idle hserved hblocks ho
        rw [hlock, hwaiting]
        exact h.mid
      | true =>
        obtain ⟨g, hg⟩ := s.perform_blocks t hblocks
        rw [hg]
        rcases block_part (t := t) h g with hpart | ⟨hjoined, -⟩
        · exact hpart.1
        · exact hjoined.mid

/-- Each unblock of the run is made where no writer waits, if it is not refused. -/
def Careful (strict : Bool) (s : State StripedLock Task) : List (Thread × Op) → Prop
  | [] => True
  | (t, op) :: ops => ((s.refuse strict t op).2 = none → s.opens t op = true → s.waiting = []) ∧
      Careful strict (s.stepOf strict t op).1 ops

theorem opens_ready (s : State StripedLock Task) (t : Thread) (op : Op) : (s.ready t op).opens t op = s.opens t op := by
  have ha := s.alike_ready t op
  cases op with
  | drop g => simp only [State.opens, State.guard?, ha.guards]
  | _ => rfl

theorem step_orderly (h : Orderly (striped n) s.lock s.waiting) {strict : Bool}
    (hopens : (s.refuse strict t op).2 = none → s.opens t op = true → s.waiting = [])
    (hreply : (s.stepOf strict t op).2.reply ≠ .fault .noReaders) :
    Orderly (striped n) (s.stepOf strict t op).1.lock (s.stepOf strict t op).1.waiting := by
  have hattempt : Mid (striped n) (s.attemptOf strict t op).1.lock (s.attemptOf strict t op).1.waiting := by
    rcases attempt_refused_or strict s t op with ⟨r, -, -, hlock, hwaiting⟩ | ⟨hnone, hrun⟩
    · rw [hlock, hwaiting]
      exact h.mid
    · have ha := s.alike_ready t op
      rw [stepOf_reply, hrun] at hreply
      rw [hrun]
      have hready : Orderly (striped n) (s.ready t op).lock (s.ready t op).waiting := by
        rw [ha.lock, ha.waiting]
        exact h
      apply perform_mid hready _ hreply
      intro ho
      rw [opens_ready] at ho
      exact ha.waiting.trans (hopens hnone ho)
  obtain ⟨s', fs, hsettle, horderly, -⟩ := settle_mid (s.attemptOf strict t op).1.waiting.length hattempt
  rw [stepOf_state, hsettle]
  exact horderly

theorem run_orderly (h : Orderly (striped n) s.lock s.waiting) {strict : Bool} (ops : List (Thread × Op))
    (hcareful : Careful strict s ops) (hreply : ∀ r ∈ (s.runOf strict ops).2, r.reply ≠ .fault .noReaders) :
    Orderly (striped n) (s.runOf strict ops).1.lock (s.runOf strict ops).1.waiting := by
  induction ops generalizing s with
  | nil => exact h
  | cons e ops ih =>
    obtain ⟨hfirst, hrest⟩ := List.forall_mem_cons.mp hreply
    exact ih (step_orderly h hcareful.1 hfirst) hcareful.2 hrest

end

/-! ## Any words, and any run -/

/-- What remains for good of a lock whose unblock has stopped at stripe `i`; its words were those of `l`. -/
structure Remains (l : StripedLock) (i : Nat) (s : State StripedLock Task) : Prop where
  first : s.lock.OpensAt 0
  /-- Every further unblock stops there, and changes nothing. -/
  stops : ∀ t op, s.opens t op = true → (s.perform t op).1.lock = s.lock ∧ (s.perform t op).2.1 = .fault .notBlocked
  kept : ∀ j, i < j → j < l.words.size → (l.word j).bit 30 = true → (s.lock.word j).bit 30 = true
  refuses : ∀ k : Index, i < k.slot l.words.size → (l.word (k.slot l.words.size)).bit 30 = true →
    ∃ ns, Lock.run s.lock (Lock.enter s.lock k) = ((s.lock, ns), .done .refused)
  blocked : ∀ j, i < j → j < l.words.size → (l.word j).bit 30 = true → Lock.isBlocked s.lock = true

/-- What an unblock does with these words, and what becomes of the lock where it stops. -/
structure Unblocks (l : StripedLock) : Prop where
  fails_iff : (∃ f, (Lock.run l (Lock.unblock l)).2 = .done (.failed f)) ↔
    ∃ j < l.words.size, (l.word j).bit 30 = false
  whole : (∀ j < l.words.size, (l.word j).bit 30 = true) →
    ∃ l', Lock.run l (Lock.unblock l) = ((l', []), .done .finished) ∧ l.Opened l' l.words.size
  broken : ∀ i, l.OpensAt i →
    ∃ l', Lock.run l (Lock.unblock l) = ((l', []), .done (.failed .notBlocked)) ∧ l.Opened l' i
  /-- Whatever operations there have been since, an operation that unblocks stops after the first stripe, and
      others follow. -/
  after : ∀ (strict : Bool) (before : List (Thread × Op)) (t : Thread) (op : Op) (i : Nat),
    let s := ((State.start l).runOf strict before).1
    (s.refuse strict t op).2 = none → s.opens t op = true → s.lock.OpensAt i → 0 < i →
      (s.stepOf strict t op).2.reply = .fault .notBlocked ∧
        ∀ ops, Spares strict (s.stepOf strict t op).1 ops →
          Remains s.lock i ((s.stepOf strict t op).1.runOf strict ops).1

section
variable {n : Nat} {s : State StripedLock Task} {t : Thread} {op : Op}

theorem Jammed.remains {l : StripedLock} {i : Nat} (hl : l.words.size = n + 1)
    (h : Jammed n (fun j => i < j ∧ (l.word j).bit 30 = true) s) : Remains l i s := by
  have hkept : ∀ j, i < j → j < l.words.size → (l.word j).bit 30 = true → (s.lock.word j).bit 30 = true :=
    fun j hij hj hset => h.lock.bits j (hl ▸ hj) ⟨hij, hset⟩
  refine ⟨⟨s.lock.pos, h.lock.first, fun j hj => absurd hj (Nat.not_lt_zero j)⟩, ?_, hkept, ?_, ?_⟩
  · intro t op hopens
    obtain ⟨hlock, -, hreply⟩ := perform_opens hopens
    obtain ⟨hfirst, hsame⟩ := h.lock.lowered
    rw [hreply, hlock, hsame, if_pos (by rw [hfirst]; exact s.lock.pos)]
    exact ⟨rfl, rfl⟩
  · intro k hik hset
    have hset' := hkept _ hik (k.slot_lt l.pos) hset
    rw [hl] at hset'
    obtain ⟨ns, hrun, -⟩ := (StripedLock.notes n).run_enter h.lock.size k
    have htry : (s.lock.word (k.slot (n + 1))).tryEnter = (s.lock.word (k.slot (n + 1)), .ok false) := by
      rw [Word.tryEnter, Word.writerPending_eq, hset', if_pos rfl]
    refine ⟨ns, ?_⟩
    change Lock.run s.lock (Lock.enter s.lock k) = ((s.lock.put (k.slot (n + 1))
      (s.lock.word (k.slot (n + 1))).tryEnter.1, ns), .done (.ofEntry (s.lock.word (k.slot (n + 1))).tryEnter.2)) at hrun
    rw [hrun, htry, StripedLock.put_self _ (slot_lt_size h.lock.size k)]
    rfl
  · intro j hij hj hset
    have hset' := hkept j hij hj hset
    have hj' : j < s.lock.words.size := by
      rw [h.lock.size, ← hl]
      exact hj
    apply Array.any_eq_true.mpr
    refine ⟨j, hj', ?_⟩
    rw [Word.writerPending_eq]
    simpa [StripedLock.word, hj'] using hset'

theorem unblocks (l : StripedLock) : Unblocks l := by
  have hrun := l.run_unblock
  refine ⟨?_, ?_, ?_, ?_⟩
  · rw [hrun]
    constructor
    · intro ⟨f, hf⟩
      by_cases hlt : l.firstOpen < l.words.size
      · exact ⟨_, hlt, l.bit_firstOpen hlt⟩
      · rw [StripedLock.opened, if_neg hlt] at hf
        cases hf
    · intro ⟨j, hj, hclear⟩
      have hlt : l.firstOpen < l.words.size := by
        by_contra hge
        rw [l.bit_of_lt_firstOpen (Nat.lt_of_lt_of_le hj (Nat.not_lt.mp hge))] at hclear
        cases hclear
      exact ⟨.notBlocked, by rw [StripedLock.opened, if_pos hlt]⟩
  · intro hall
    have hlast : l.firstOpen = l.words.size := by
      rcases Nat.lt_or_eq_of_le l.firstOpen_le with hlt | heq
      · have hclear := l.bit_firstOpen hlt
        rw [hall _ hlt] at hclear
        cases hclear
      · exact heq
    rw [hrun, StripedLock.opened, hlast, if_neg (Nat.lt_irrefl _)]
    exact ⟨_, rfl, l.opened_lowered _⟩
  · intro i hi
    rw [hrun, StripedLock.opened, hi.firstOpen, if_pos hi.lt]
    exact ⟨_, rfl, l.opened_lowered _⟩
  · intro strict before t op i s hnone hopens hi hpos
    obtain ⟨n, hn⟩ := Nat.exists_eq_succ_of_ne_zero (Nat.pos_iff_ne_zero.mp l.pos)
    have hstalled : Stalled n s := Stalled.run ⟨hn, fun _ hw => absurd hw List.not_mem_nil⟩ strict before
    have hattempt : s.attemptOf strict t op = (s.ready t op).perform t op := by
      rcases attempt_refused_or strict s t op with ⟨r, hr, -⟩ | ⟨-, hrun⟩
      · rw [hnone] at hr
        cases hr
      · exact hrun
    have ha := s.alike_ready t op
    obtain ⟨hlock, hwaiting, hreply⟩ := perform_opens ((opens_ready s t op).trans hopens)
    rw [ha.lock, hi.firstOpen] at hlock hreply
    rw [if_pos hi.lt] at hreply
    refine ⟨(congrArg (·.2.1) hattempt).trans hreply, ?_⟩
    intro ops hops
    -- the first stripe is open now, and those after stripe `i` are as they were
    have hjammed : Jammed n (fun j => i < j ∧ (s.lock.word j).bit 30 = true) (s.attemptOf strict t op).1 := by
      rw [hattempt]
      refine ⟨?_, ?_⟩
      · rw [hlock]
        refine ⟨(s.lock.size_lowered i).trans hstalled.size, ?_, ?_⟩
        · rw [s.lock.word_lowered i s.lock.pos, if_pos hpos]
          exact (s.lock.word 0).bits_lower.2.1
        · intro j hj hshut
          rw [s.lock.word_lowered i (hstalled.size ▸ hj), if_neg (by omega)]
          exact hshut.2
      · rw [hwaiting, ha.waiting]
        exact fun w hw => (hstalled.writers w hw).past
    have hstep : Jammed n (fun j => i < j ∧ (s.lock.word j).bit 30 = true) (s.stepOf strict t op).1 := by
      rw [stepOf_state]
      exact hjammed.settle _
    exact (hstep.run ops hops).remains hstalled.size

end

/-- For every lock, whatever its words; and of runs from the start in which nobody unblocks while a writer waits:
    an unblock stops after the first stripe only where a release has broken off before. The strict runs are those of
    the program. -/
theorem unblock_half_open : (∀ l, Unblocks l) ∧ (∀ s : State StripedLock Task, s.Programmed) ∧
    ∀ (n : Nat) (strict : Bool) (ops : List (Thread × Op)) (t : Thread) (op : Op) (i : Nat),
      let e := (State.start (StripedLock.new n)).runOf strict ops
      Careful strict (State.start (StripedLock.new n)) ops →
        (e.1.refuse strict t op).2 = none → e.1.opens t op = true → e.1.waiting = [] →
          e.1.lock.OpensAt i → 0 < i → ∃ r ∈ e.2, r.reply = .fault .noReaders := by
  refine ⟨unblocks, State.programmed, ?_⟩
  intro n strict ops t op i e hcareful _ _ hws hi hpos
  have hsize : (StripedLock.new n).words.size = n + 1 := by simp [StripedLock.new]
  have hfree : ∀ j < n + 1, (StripedLock.new n).word j = .free := fun j hj => StripedLock.word_new (hsize ▸ hj)
  have hstart : Orderly (striped n) (StripedLock.new n) [] := by
    refine ⟨sane_iff.mpr ⟨hsize, ?_⟩, .inl ⟨rfl, .inl ?_⟩⟩
    · intro j hj
      rw [hfree j hj]
      decide
    · intro j hj
      rw [striped_bit, hfree j hj]
      decide
  by_contra hno
  have horderly := run_orderly (s := State.start (StripedLock.new n)) hstart ops hcareful
    fun r hr he => hno ⟨r, hr, he⟩
  change Orderly (striped n) e.1.lock e.1.waiting at horderly
  rw [hws] at horderly
  have hlt := hi.lt
  have hfirst := hi.firstOpen
  rcases horderly.firstOpen with ⟨hzero, -⟩ | ⟨hall, -⟩
  · omega
  · omega

/-- A release too many at the second stripe of a blocked lock: an unblock stops there. -/
example : ((State.start (StripedLock.new 1)).runAll [(0, .block), (0, .leaveAt ⟨1⟩ 1)]).1.lock.firstOpen = 1 := by
  decide +kernel

end BusyWait.LockStep.Locks
