import BusyWait.Proofs.Solo
import BusyWait.Proofs.Lock.Counter
import BusyWait.Proofs.Lock.OneWord

/-
  BusyWait.Proofs.Lock.Faces — what whole operations do to a lock when nobody else acts.

  A lock shows a count of readers and a writer's bit for each of its stripes, be it only
  one (`Face`). A reader's operation is about the stripe of its index. A writer goes from
  stripe to stripe, sets each bit and stops at the first stripe with readers; it goes on
  from there once they are out (`Face.stops`, `Face.ends`).

  - `Worded.face`: the locks made of words, whose every access is an access of one word
    (`Worded`). The striped lock, the plain and the patient one are such.
  - `CountedLock.face`: the counter and its flag.
-/

namespace BusyWait

/-- A lock by stripes, and its operations run alone. -/
structure Face (L T : Type) [Lock L T] where
  size : Nat
  pos : 0 < size
  Sane : L → Prop
  readers : L → Nat → Nat
  bit : L → Nat → Bool
  /-- The most readers that a stripe can count. -/
  limit : Nat
  /-- What is left to do for a writer that waits at a stripe. -/
  paused : Nat → T
  refuses : ∀ {l : L}, Sane l → ∀ i, bit l (i.slot size) = true →
    ∃ ns, Lock.run l (Lock.enter l i) = ((l, ns), .done .refused)
  admits : ∀ {l : L}, Sane l → ∀ i, bit l (i.slot size) = false → (Lock.run l (Lock.enter l i)).2 ≠ .done .refused
  enters : ∀ {l : L}, Sane l → ∀ i, bit l (i.slot size) = false → readers l (i.slot size) < limit →
    ∃ l' ns, Lock.run l (Lock.enter l i) = ((l', ns), .done .entered) ∧ Sane l' ∧ ∀ j < size,
      readers l' j = (if j = i.slot size then readers l j + 1 else readers l j) ∧ bit l' j = bit l j
  leaves : ∀ {l : L}, Sane l → ∀ i, 0 < readers l (i.slot size) →
    ∃ l' ns, Lock.run l (Lock.leave l i) = ((l', ns), .done .finished) ∧ Sane l' ∧ ∀ j < size,
      readers l' j = (if j = i.slot size then readers l j - 1 else readers l j) ∧ bit l' j = bit l j
  /-- A writer stops at the first stripe with readers. -/
  stops : ∀ {l : L}, Sane l → ∀ t k, t = Lock.block l ∧ k = 0 ∨ t = paused k ∧ k < size ∧ bit l k = true →
    ∀ m, k ≤ m → m < size → (∀ j, k ≤ j → j < m → readers l j = 0) → 0 < readers l m →
    ∃ l' ns, Lock.run l t = ((l', ns), .more (paused m)) ∧ Sane l' ∧ ∀ j < size,
      readers l' j = readers l j ∧ bit l' j = (bit l j || decide (k ≤ j ∧ j ≤ m))
  /-- Where there is none it ends. -/
  ends : ∀ {l : L}, Sane l → ∀ t k, t = Lock.block l ∧ k = 0 ∨ t = paused k ∧ k < size ∧ bit l k = true →
    (∀ j, k ≤ j → j < size → readers l j = 0) →
    ∃ l' ns, Lock.run l t = ((l', ns), .done .finished) ∧ Sane l' ∧ ∀ j < size,
      readers l' j = readers l j ∧ bit l' j = (bit l j || decide (k ≤ j))
  blocked : ∀ {l : L}, Sane l → Lock.isBlocked l = true → ∃ j < size, bit l j = true
  unblocks : ∀ {l : L}, Sane l → (∀ j < size, bit l j = true) →
    ∃ l' ns, Lock.run l (Lock.unblock l) = ((l', ns), .done .finished) ∧ Sane l' ∧ ∀ j < size,
      readers l' j = readers l j ∧ bit l' j = false

theorem Face.slot_lt {L T : Type} [Lock L T] (F : Face L T) (i : Index) : i.slot F.size < F.size := i.slot_lt F.pos

/-! ## Locks made of words -/

/-- How a reader's swap ends for its lock. -/
def Verdict.ofEntry : Except Fault Bool → Verdict
  | .ok true => .entered
  | .ok false => .refused
  | .error f => .failed f

/-- A lock of so many words, each access of which is an access of one of them. -/
structure Worded (L T : Type) [Lock L T] where
  size : Nat
  pos : 0 < size
  /-- It has so many words. -/
  Of : L → Prop
  word : L → Nat → Word
  put : L → Nat → Word → L
  of_put : ∀ {l : L}, Of l → ∀ k w, Of (put l k w)
  word_put : ∀ {l : L}, Of l → ∀ {k j} w, k < size → j < size → word (put l k w) j = if k = j then w else word l j
  put_self : ∀ {l : L}, Of l → ∀ {k}, k < size → put l k (word l k) = l
  entering : Index → Entry → UInt32 → T
  blocking : Nat → Session → T
  unblocking : Nat → T
  enter : ∀ (l : L) i, Lock.enter l i = entering i .look 0
  block : ∀ l : L, Lock.block l = blocking 0 .start
  unblock : ∀ l : L, Lock.unblock l = unblocking 0
  bound : ∀ {l : L}, Of l → 3 * size ≤ Lock.bound l
  blocked : ∀ {l : L}, Of l → Lock.isBlocked l = true → ∃ k < size, (word l k).writerPending = true
  waits_entering : ∀ (l : L) i e n, Lock.waits l (entering i e n) = false
  waits_leave : ∀ (l : L) i, Lock.waits l (Lock.leave l i) = false
  waits_blocking : ∀ (l : L) k s, k < size → Lock.waits l (blocking k s) = s.waits (word l k)
  waits_unblocking : ∀ (l : L) k, Lock.waits l (unblocking k) = false
  step_entering : ∀ {l : L}, Of l → ∀ i e n, ∃ m ns, Lock.step l (entering i e n) =
    (put l (i.slot size) (e.step (word l (i.slot size))).1,
      (e.step (word l (i.slot size))).2.map (entering i · m) .ofEntry, ns)
  step_leave : ∀ {l : L}, Of l → ∀ i, ∃ ns, Lock.step l (Lock.leave l i) =
    (put l (i.slot size) (word l (i.slot size)).release.1, .done (.ofExcept (word l (i.slot size)).release.2), ns)
  step_blocking : ∀ {l : L}, Of l → ∀ {k}, k < size → ∀ {s s' w}, s.step (word l k) = (w, .more s') →
    ∃ ns, Lock.step l (blocking k s) = (put l k w, .more (blocking k s'), ns)
  /-- The writer has not had to poll. -/
  step_blocked : ∀ {l : L}, Of l → ∀ {k}, k < size → ∀ {s w f}, s.step (word l k) = (w, .done (.ok (f, 0))) →
    ∃ ns, Lock.step l (blocking k s) =
      (put l k w, if k + 1 < size then .more (blocking (k + 1) .start) else .done .finished, ns)
  step_unblocking : ∀ {l : L}, Of l → ∀ {k}, k < size → ∀ {w}, (word l k).unblock = (w, .ok ()) →
    ∃ ns, Lock.step l (unblocking k) =
      (put l k w, if k + 1 < size then .more (unblocking (k + 1)) else .done .finished, ns)

namespace StripedLock

theorem step_entering {n : Nat} {l : StripedLock} (h : l.words.size = n + 1) (i : Index) (e : Entry) (failures : UInt32) :
    ∃ m ns, step l (.enter i e failures) = (l.put (i.slot (n + 1)) (e.step (l.word (i.slot (n + 1)))).1,
      (e.step (l.word (i.slot (n + 1)))).2.map (.enter i · m) .ofEntry, ns) := by
  have hs : l.stripeOf i = i.slot (n + 1) := by rw [stripeOf, h]
  simp only [step, hs]
  rcases e.step (l.word (i.slot (n + 1))) with ⟨w, e' | _ | b⟩
  · exact ⟨_, _, rfl⟩
  · exact ⟨0, _, rfl⟩
  · cases b
    · exact ⟨0, _, rfl⟩
    · exact ⟨0, _, rfl⟩

theorem step_leaving {n : Nat} {l : StripedLock} (h : l.words.size = n + 1) (i : Index) :
    ∃ ns, step l (.leave i) = (l.put (i.slot (n + 1)) (l.word (i.slot (n + 1))).release.1,
      .done (.ofExcept (l.word (i.slot (n + 1))).release.2), ns) := by
  have hs : l.stripeOf i = i.slot (n + 1) := by rw [stripeOf, h]
  exact ⟨[], by simp only [step, hs]⟩

theorem step_block_more {l : StripedLock} {k : Nat} {s s' : Session} {w : Word}
    (hs : s.step (l.word k) = (w, .more s')) :
    ∃ ns, step l (.block k s 0) = (l.put k w, .more (.block k s' 0), ns) :=
  ⟨[], by simp only [step, hs]⟩

theorem step_block_done {l : StripedLock} {k : Nat} {s : Session} {w : Word} {f : UInt32}
    (hs : s.step (l.word k) = (w, .done (.ok (f, 0)))) : ∃ ns, step l (.block k s 0) =
      (l.put k w, if k + 1 < l.words.size then .more (.block (k + 1) .start 0) else .done .finished, ns) := by
  simp only [step, hs]
  by_cases hk : k + 1 < l.words.size
  · exact ⟨_, by simp [hk]; rfl⟩
  · exact ⟨_, by simp [hk]; rfl⟩

theorem step_unblock_ok {l : StripedLock} {k : Nat} {w : Word} (hw : (l.word k).unblock = (w, .ok ())) :
    ∃ ns, step l (.unblock k) =
      (l.put k w, if k + 1 < l.words.size then .more (.unblock (k + 1)) else .done .finished, ns) :=
  ⟨[], by simp only [step, hw]⟩

theorem bound_ge (l : StripedLock) : 3 * l.words.size ≤ Lock.bound l := by
  simp only [Lock.bound]
  omega

theorem exists_of_isBlocked {l : StripedLock} (hb : Lock.isBlocked l = true) :
    ∃ k < l.words.size, (l.word k).writerPending = true := by
  obtain ⟨k, hk, hp⟩ := Array.any_eq_true.mp hb
  refine ⟨k, hk, ?_⟩
  simpa [word, hk] using hp

/-- With one stripe more than the number says. -/
def worded (n : Nat) : Worded StripedLock Task where
  size := n + 1
  pos := Nat.succ_pos n
  Of l := l.words.size = n + 1
  word := word
  put := put
  of_put h _ _ := (size_put ..).trans h
  word_put h _ _ w hk _ := word_put _ _ _ w (h ▸ hk)
  put_self h _ hk := put_self _ (h ▸ hk)
  entering := .enter
  blocking k s := .block k s 0
  unblocking := .unblock
  enter _ _ := rfl
  block _ := rfl
  unblock _ := rfl
  bound {l} h := h ▸ bound_ge l
  blocked h hb := h ▸ exists_of_isBlocked hb
  waits_entering _ _ _ _ := rfl
  waits_leave _ _ := rfl
  waits_blocking _ _ _ _ := rfl
  waits_unblocking _ _ := rfl
  step_entering h := step_entering h
  step_leave h := step_leaving h
  step_blocking _ _ _ _ _ _ hs := step_block_more hs
  step_blocked h _ _ _ _ _ hs := h ▸ step_block_done hs
  step_unblocking h _ _ _ hw := h ▸ step_unblock_ok hw

end StripedLock

theorem Worded.eq_of_lt_one {k j : Nat} (hk : k < 1) (hj : j < 1) : k = j := by omega

/-- There is no word after the only one. -/
theorem Worded.not_succ_lt_one (k : Nat) : ¬ k + 1 < 1 := by omega

namespace RetryLock

theorem step_entering (l : RetryLock) (e : Entry) (n : UInt32) :
    ∃ m ns, step l (.enter e n) = (⟨(e.step l.word).1⟩, (e.step l.word).2.map (.enter · m) .ofEntry, ns) := by
  simp only [step]
  rcases e.step l.word with ⟨w, e' | _ | b⟩
  · exact ⟨_, _, rfl⟩
  · exact ⟨0, _, rfl⟩
  · cases b
    · exact ⟨0, _, rfl⟩
    · exact ⟨0, _, rfl⟩

theorem step_block_more {l : RetryLock} {s s' : Session} {w : Word} (hs : s.step l.word = (w, .more s')) :
    ∃ ns, step l (.block s) = (⟨w⟩, .more (.block s'), ns) :=
  ⟨[], by simp only [step, hs]⟩

theorem step_block_done {l : RetryLock} {s : Session} {w : Word} {f : UInt32}
    (hs : s.step l.word = (w, .done (.ok (f, 0)))) (k : Nat) : ∃ ns, step l (.block s) =
      (⟨w⟩, if k + 1 < 1 then .more (.block .start) else .done .finished, ns) := by
  simp only [step, hs, if_neg (Worded.not_succ_lt_one k)]
  exact ⟨_, rfl⟩

theorem step_unblock_ok {l : RetryLock} {w : Word} (hw : l.word.unblock = (w, .ok ())) (k : Nat) :
    ∃ ns, step l .unblock = (⟨w⟩, if k + 1 < 1 then .more .unblock else .done .finished, ns) := by
  simp only [step, hw, if_neg (Worded.not_succ_lt_one k)]
  exact ⟨[], rfl⟩

def worded : Worded RetryLock Task where
  size := 1
  pos := Nat.one_pos
  Of _ := True
  word l _ := l.word
  put _ _ w := ⟨w⟩
  of_put _ _ _ := trivial
  word_put _ _ _ _ hk hj := (if_pos (Worded.eq_of_lt_one hk hj)).symm
  put_self _ _ _ := rfl
  entering _ := .enter
  blocking _ := .block
  unblocking _ := .unblock
  enter _ _ := rfl
  block _ := rfl
  unblock _ := rfl
  bound _ := Nat.le_succ 3
  blocked _ hb := ⟨0, Nat.one_pos, hb⟩
  waits_entering _ _ _ _ := rfl
  waits_leave _ _ := rfl
  waits_blocking _ _ _ _ := rfl
  waits_unblocking _ _ := rfl
  step_entering _ _ := step_entering _
  step_leave _ _ := ⟨[], rfl⟩
  step_blocking _ _ _ _ _ _ hs := step_block_more hs
  step_blocked _ _ _ _ _ _ hs := step_block_done hs _
  step_unblocking _ _ _ _ hw := step_unblock_ok hw _

end RetryLock

namespace PatientLock

theorem step_entering (l : PatientLock) (e : Entry) (n : UInt32) :
    ∃ m ns, step l (.enter e n) =
      ({ l with word := (e.step l.word).1 }, (e.step l.word).2.map (.enter · m) .ofEntry, ns) := by
  simp only [step]
  rcases e.step l.word with ⟨w, e' | _ | b⟩
  · exact ⟨_, _, rfl⟩
  · exact ⟨0, _, rfl⟩
  · cases b
    · exact ⟨0, _, rfl⟩
    · exact ⟨0, _, rfl⟩

theorem step_block_more {l : PatientLock} {s s' : Session} {w : Word} (hs : s.step l.word = (w, .more s')) :
    ∃ ns, step l (.block s) = ({ l with word := w }, .more (.block s'), ns) :=
  ⟨[], by simp only [step, hs]⟩

theorem step_block_done {l : PatientLock} {s : Session} {w : Word} {f : UInt32}
    (hs : s.step l.word = (w, .done (.ok (f, 0)))) (k : Nat) : ∃ ns, step l (.block s) =
      ({ l with word := w }, if k + 1 < 1 then .more (.block .start) else .done .finished, ns) := by
  simp only [step, hs, if_neg (Worded.not_succ_lt_one k)]
  exact ⟨_, rfl⟩

theorem step_unblock_ok {l : PatientLock} {w : Word} (hw : l.word.unblock = (w, .ok ())) (k : Nat) :
    ∃ ns, step l .unblock = ({ l with word := w }, if k + 1 < 1 then .more .unblock else .done .finished, ns) := by
  simp only [step, hw, if_neg (Worded.not_succ_lt_one k)]
  exact ⟨[], rfl⟩

def worded (policy : Policy) : Worded PatientLock Task where
  size := 1
  pos := Nat.one_pos
  Of l := l.policy = policy
  word l _ := l.word
  put l _ w := { l with word := w }
  of_put h _ _ := h
  word_put _ _ _ _ hk hj := (if_pos (Worded.eq_of_lt_one hk hj)).symm
  put_self _ _ _ := rfl
  entering _ := .enter
  blocking _ := .block
  unblocking _ := .unblock
  enter _ _ := rfl
  block _ := rfl
  unblock _ := rfl
  bound _ := Nat.le_succ 3
  blocked _ hb := ⟨0, Nat.one_pos, hb⟩
  waits_entering _ _ _ _ := rfl
  waits_leave _ _ := rfl
  waits_blocking _ _ _ _ := rfl
  waits_unblocking _ _ := rfl
  step_entering _ _ := step_entering _
  step_leave _ _ := ⟨[], rfl⟩
  step_blocking _ _ _ _ _ _ hs := step_block_more hs
  step_blocked _ _ _ _ _ _ hs := step_block_done hs _
  step_unblocking _ _ _ _ hw := step_unblock_ok hw _

end PatientLock

/-! ## Their whole operations -/

theorem Word.Counts.raise_eq_owned_iff {w : Word} {n : Nat} {b : Bool} (h : w.Counts n b) :
    w.raise = .owned ↔ n = 0 := by
  rw [h.raise.eq_owned_iff]
  exact and_iff_left rfl

theorem Lock.noted_eq {L T : Type} [Lock L T] {l l' : L} {t : T} {p : Progress T Verdict} {ns : List Note}
    (h : Lock.step l t = (l', p, ns)) (before : List Note) : Lock.noted (l, before) t = ((l', before ++ ns), p) := by
  simp only [Lock.noted, h]

/-- Accesses of an operation that is alone. -/
abbrev Lock.Gets {L T : Type} [Lock L T] : Nat → L × List Note → T → (L × List Note) × Progress T Verdict → Prop :=
  Reaches Lock.noted fun s t => Lock.waits s.1 t

namespace Worded

variable {L T : Type} [Lock L T] (W : Worded L T) {l : L} (ns : List Note)

theorem gets_raise (hl : W.Of l) {k : Nat} (hk : k < W.size) : ∃ ns', Lock.Gets 2 (l, ns) (W.blocking k .start)
    ((W.put l k (W.word l k).raise, ns'), .more (W.blocking k (.drain 0 ⟨0⟩))) := by
  have hlook : Session.start.step (W.word l k) = (W.word l k, .more (.request (.swap (W.word l k) 0))) := rfl
  have hswap : (Session.request (.swap (W.word l k) 0)).step (W.word l k) =
      ((W.word l k).raise, .more (.drain 0 ⟨0⟩)) := by simp [Session.step, Request.step]
  obtain ⟨ns₁, h₁⟩ := W.step_blocking hl hk hlook
  obtain ⟨ns₂, h₂⟩ := W.step_blocking hl hk hswap
  rw [W.put_self hl hk] at h₁
  refine ⟨ns ++ ns₁ ++ ns₂, ?_⟩
  exact .next (W.waits_blocking l k _ hk) (Lock.noted_eq h₁ ns)
    (.next (W.waits_blocking l k _ hk) (Lock.noted_eq h₂ _) .here)

/-- A writer that has a word for itself goes on to the next, or ends. -/
theorem gets_on (hl : W.Of l) {k : Nat} (hk : k < W.size) (hw : W.word l k = .owned) : ∃ ns',
    Lock.Gets 1 (l, ns) (W.blocking k (.drain 0 ⟨0⟩))
      ((l, ns'), if k + 1 < W.size then .more (W.blocking (k + 1) .start) else .done .finished) := by
  have hs : (Session.drain 0 ⟨0⟩).step (W.word l k) = (W.word l k, .done (.ok (0, 0))) := by
    simp [Session.step, Drain.step, hw]
  obtain ⟨ns', h⟩ := W.step_blocked hl hk hs
  rw [W.put_self hl hk] at h
  refine ⟨ns ++ ns', ?_⟩
  have hwaits : Lock.waits l (W.blocking k (.drain 0 ⟨0⟩)) = false := by
    rw [W.waits_blocking l k _ hk, hw]
    rfl
  exact (Lock.noted_eq h ns) ▸ Reaches.single hwaits

/-- The words from `k` to `m` have got the writer's bit. -/
def Raised (k m : Nat) (l l' : L) : Prop :=
  W.Of l' ∧ ∀ j < W.size, W.word l' j = if k ≤ j ∧ j ≤ m then (W.word l j).raise else W.word l j

/-- From a stripe on, over those without readers, to the one where the writer has to wait. -/
theorem gets_to (d : Nat) {k m : Nat} (hl : W.Of l) (hd : k + d = m) (hm : m < W.size)
    (he : ∀ j, k ≤ j → j < m → (W.word l j).raise = .owned) :
    ∃ l' ns', Lock.Gets (3 * d + 2) (l, ns) (W.blocking k .start)
      ((l', ns'), .more (W.blocking m (.drain 0 ⟨0⟩))) ∧ W.Raised k m l l' := by
  induction d generalizing l ns k with
  | zero =>
    obtain rfl : k = m := hd
    obtain ⟨ns', h⟩ := W.gets_raise ns hl hm
    refine ⟨_, ns', h, W.of_put hl _ _, ?_⟩
    intro j hj
    rw [W.word_put hl _ hm hj]
    by_cases hkj : k = j
    · rw [if_pos hkj, if_pos (by omega), hkj]
    · rw [if_neg hkj, if_neg (by omega)]
  | succ d ih =>
    have hk : k < W.size := by omega
    have hl' := W.of_put hl k (W.word l k).raise
    obtain ⟨ns₁, h₁⟩ := W.gets_raise ns hl hk
    have hself : W.word (W.put l k (W.word l k).raise) k = .owned := by
      rw [W.word_put hl _ hk hk, if_pos rfl, he k (Nat.le_refl k) (by omega)]
    obtain ⟨ns₂, h₂⟩ := W.gets_on ns₁ hl' hk hself
    rw [if_pos (by omega)] at h₂
    have hnext : ∀ j, k + 1 ≤ j → j < m → (W.word (W.put l k (W.word l k).raise) j).raise = .owned := by
      intro j hkj hjm
      rw [W.word_put hl _ hk (by omega), if_neg (by omega)]
      exact he j (by omega) hjm
    obtain ⟨l', ns', h₃, hof, hwords⟩ := ih ns₂ hl' (by omega) hnext
    refine ⟨l', ns', ((h₁.trans h₂).trans h₃).mono (by omega), hof, ?_⟩
    intro j hj
    rw [hwords j hj, W.word_put hl _ hk hj]
    by_cases hkj : k = j
    · rw [if_neg (by omega), if_pos hkj, if_pos (by omega), hkj]
    · rw [if_neg hkj]
      by_cases hin : k + 1 ≤ j ∧ j ≤ m
      · rw [if_pos hin, if_pos (by omega)]
      · rw [if_neg hin, if_neg (by omega)]

/-- Where a writer is: about to begin, or waiting at a stripe whose bit it has set. -/
def At (l : L) (t : T) (k : Nat) : Prop :=
  t = Lock.block l ∧ k = 0 ∨ t = W.blocking k (.drain 0 ⟨0⟩) ∧ k < W.size ∧ (W.word l k).writerPending = true

theorem gets_from {t : T} {k m : Nat} (hl : W.Of l) (ht : W.At l t k) (hkm : k ≤ m) (hm : m < W.size)
    (he : ∀ j, k ≤ j → j < m → (W.word l j).raise = .owned) : ∃ l' ns', Lock.Gets (3 * m + 2) (l, ns) t
      ((l', ns'), .more (W.blocking m (.drain 0 ⟨0⟩))) ∧ W.Raised k m l l' := by
  rcases ht with ⟨rfl, rfl⟩ | ⟨rfl, hk, hp⟩
  · rw [W.block]
    obtain ⟨l', ns', h, hr⟩ := W.gets_to ns m hl (Nat.zero_add m) hm he
    exact ⟨l', ns', h, hr⟩
  have hself : (W.word l k).raise = W.word l k := by rw [Word.raise, if_pos hp]
  rcases Nat.eq_or_lt_of_le hkm with rfl | hlt
  · refine ⟨l, ns, .here, hl, ?_⟩
    intro j _
    by_cases hj : k ≤ j ∧ j ≤ k
    · obtain rfl : j = k := by omega
      rw [if_pos hj, hself]
    · rw [if_neg hj]
  · obtain ⟨ns₁, h₁⟩ := W.gets_on ns hl hk (hself ▸ he k (Nat.le_refl k) hlt)
    rw [if_pos (by omega)] at h₁
    obtain ⟨l', ns', h₂, hof, hwords⟩ := W.gets_to ns₁ (k := k + 1) (m - (k + 1)) hl (by omega) hm
      fun j hkj hjm => he j (by omega) hjm
    refine ⟨l', ns', (h₁.trans h₂).mono (by omega), hof, ?_⟩
    intro j hj
    rw [hwords j hj]
    by_cases hin : k + 1 ≤ j ∧ j ≤ m
    · rw [if_pos hin, if_pos (by omega)]
    · rw [if_neg hin]
      by_cases hjk : k ≤ j ∧ j ≤ m
      · obtain rfl : j = k := by omega
        rw [if_pos hjk, hself]
      · rw [if_neg hjk]

/-- Its words count their readers. -/
def Sane (l : L) : Prop :=
  W.Of l ∧ ∀ j < W.size, (W.word l j).Counts (W.word l j).readers.toNat (W.word l j).writerPending

theorem counts_self {w : Word} {n : Nat} {b : Bool} (h : w.Counts n b) : w.Counts w.readers.toNat w.writerPending := by
  rw [h.readers, h.writerPending]
  exact h

/-- What a word shows once its bit is set. -/
theorem Raised.shows {k m : Nat} {l' : L} (h : W.Raised k m l l') (hl : W.Sane l) : W.Sane l' ∧ ∀ j < W.size,
    (W.word l' j).readers.toNat = (W.word l j).readers.toNat ∧
      (W.word l' j).writerPending = ((W.word l j).writerPending || decide (k ≤ j ∧ j ≤ m)) := by
  have hone : ∀ j < W.size, (W.word l' j).Counts (W.word l j).readers.toNat
      ((W.word l j).writerPending || decide (k ≤ j ∧ j ≤ m)) := by
    intro j hj
    rw [h.2 j hj]
    by_cases hin : k ≤ j ∧ j ≤ m
    · rw [if_pos hin, decide_eq_true hin, Bool.or_true]
      exact (hl.2 j hj).raise
    · rw [if_neg hin, decide_eq_false hin, Bool.or_false]
      exact hl.2 j hj
  exact ⟨⟨h.1, fun j hj => counts_self (hone j hj)⟩, fun j hj => ⟨(hone j hj).readers, (hone j hj).writerPending⟩⟩

theorem readers_eq_zero_iff (hl : W.Sane l) {j : Nat} (hj : j < W.size) :
    (W.word l j).raise = .owned ↔ (W.word l j).readers.toNat = 0 := (hl.2 j hj).raise_eq_owned_iff

theorem stops (hl : W.Sane l) {t : T} {k m : Nat} (ht : W.At l t k) (hkm : k ≤ m) (hm : m < W.size)
    (he : ∀ j, k ≤ j → j < m → (W.word l j).readers.toNat = 0) (hr : 0 < (W.word l m).readers.toNat) :
    ∃ l' ns, Lock.run l t = ((l', ns), .more (W.blocking m (.drain 0 ⟨0⟩))) ∧ W.Sane l' ∧ ∀ j < W.size,
      (W.word l' j).readers.toNat = (W.word l j).readers.toNat ∧
        (W.word l' j).writerPending = ((W.word l j).writerPending || decide (k ≤ j ∧ j ≤ m)) := by
  obtain ⟨l', ns, h, hraised⟩ := W.gets_from [] hl.1 ht hkm hm
    fun j hkj hjm => (W.readers_eq_zero_iff hl (by omega)).mpr (he j hkj hjm)
  refine ⟨l', ns, h.alone_halt ?_ ?_, hraised.shows W hl⟩
  · rw [W.waits_blocking l' m _ hm]
    show (W.word l' m != .owned) = true
    rw [bne_iff_ne, hraised.2 m hm, if_pos ⟨hkm, Nat.le_refl m⟩, ne_eq, W.readers_eq_zero_iff hl hm]
    omega
  · have := W.bound hl.1
    omega

theorem ends (hl : W.Sane l) {t : T} {k : Nat} (ht : W.At l t k)
    (he : ∀ j, k ≤ j → j < W.size → (W.word l j).readers.toNat = 0) :
    ∃ l' ns, Lock.run l t = ((l', ns), .done .finished) ∧ W.Sane l' ∧ ∀ j < W.size,
      (W.word l' j).readers.toNat = (W.word l j).readers.toNat ∧
        (W.word l' j).writerPending = ((W.word l j).writerPending || decide (k ≤ j)) := by
  have hpos := W.pos
  have hk : k < W.size := by
    rcases ht with ⟨-, rfl⟩ | ⟨-, hk, -⟩
    · exact hpos
    · exact hk
  have hempty : ∀ j, k ≤ j → j < W.size → (W.word l j).raise = .owned :=
    fun j hkj hj => (W.readers_eq_zero_iff hl hj).mpr (he j hkj hj)
  obtain ⟨l', ns₁, h₁, hraised⟩ := W.gets_from [] (m := W.size - 1) hl.1 ht (by omega) (by omega)
    fun j hkj hjm => hempty j hkj (by omega)
  have hlast : W.word l' (W.size - 1) = .owned := by
    rw [hraised.2 _ (by omega), if_pos (by omega), hempty _ (by omega) (by omega)]
  obtain ⟨ns, h₂⟩ := W.gets_on ns₁ hraised.1 (by omega) hlast
  rw [if_neg (by omega)] at h₂
  have hbound := W.bound hl.1
  obtain ⟨hs, hshows⟩ := hraised.shows W hl
  refine ⟨l', ns, (h₁.trans h₂).alone_done (by omega), hs, ?_⟩
  intro j hj
  obtain ⟨hr, hb⟩ := hshows j hj
  refine ⟨hr, hb.trans (congrArg _ (decide_eq_decide.mpr ?_))⟩
  omega

/-- An unblock clears the bits one after the other. -/
theorem gets_free (d : Nat) {k : Nat} (hl : W.Of l) (hd : k + d + 1 = W.size)
    (hp : ∀ j, k ≤ j → j < W.size → (W.word l j).writerPending = true) :
    ∃ l' ns', Lock.Gets (d + 1) (l, ns) (W.unblocking k) ((l', ns'), .done .finished) ∧ W.Of l' ∧
      ∀ j < W.size, W.word l' j = if k ≤ j then (W.word l j).lower else W.word l j := by
  induction d generalizing l ns k with
  | zero =>
    have hk : k < W.size := by omega
    have hw : (W.word l k).unblock = ((W.word l k).lower, .ok ()) := by
      simp [Word.unblock, hp k (Nat.le_refl k) hk]
    obtain ⟨ns', h⟩ := W.step_unblocking hl hk hw
    rw [if_neg (by omega)] at h
    refine ⟨_, _, .last (W.waits_unblocking l k) (Lock.noted_eq h ns), W.of_put hl _ _, ?_⟩
    intro j hj
    rw [W.word_put hl _ hk hj]
    by_cases hkj : k = j
    · rw [if_pos hkj, if_pos (by omega), hkj]
    · rw [if_neg hkj, if_neg (by omega)]
  | succ d ih =>
    have hk : k < W.size := by omega
    have hw : (W.word l k).unblock = ((W.word l k).lower, .ok ()) := by
      simp [Word.unblock, hp k (Nat.le_refl k) hk]
    obtain ⟨ns₁, h⟩ := W.step_unblocking hl hk hw
    rw [if_pos (by omega)] at h
    have hnext : ∀ j, k + 1 ≤ j → j < W.size → (W.word (W.put l k (W.word l k).lower) j).writerPending = true := by
      intro j hkj hj
      rw [W.word_put hl _ hk hj, if_neg (by omega)]
      exact hp j (by omega) hj
    obtain ⟨l', ns', h', hof, hwords⟩ := ih (ns ++ ns₁) (W.of_put hl k (W.word l k).lower) (by omega) hnext
    refine ⟨l', ns', .next (W.waits_unblocking l k) (Lock.noted_eq h ns) h', hof, ?_⟩
    intro j hj
    rw [hwords j hj, W.word_put hl _ hk hj]
    by_cases hkj : k = j
    · rw [if_neg (by omega), if_pos hkj, if_pos (by omega), hkj]
    · rw [if_neg hkj]
      by_cases hin : k + 1 ≤ j
      · rw [if_pos hin, if_pos (by omega)]
      · rw [if_neg hin, if_neg (by omega)]

theorem slot_lt (i : Index) : i.slot W.size < W.size := i.slot_lt W.pos

/-- A reader that begins decides on the word of its stripe as it is. -/
theorem step_look (hl : W.Of l) (i : Index) : ∃ m ns, Lock.step l (Lock.enter l i) =
    (l, (Entry.judge (W.word l (i.slot W.size)) 0).map (W.entering i · m) .ofEntry, ns) := by
  obtain ⟨m, ns, h⟩ := W.step_entering hl i .look 0
  have hself : W.put l (i.slot W.size) (W.word l (i.slot W.size)) = l := W.put_self hl (W.slot_lt i)
  rw [← W.enter l i] at h
  refine ⟨m, ns, h.trans ?_⟩
  simp only [Entry.step, hself]

include W in
theorem waits_enter (l : L) (i : Index) : Lock.waits l (Lock.enter l i) = false := by
  rw [W.enter]
  exact W.waits_entering ..

theorem refuses (hl : W.Of l) {i : Index} (hp : (W.word l (i.slot W.size)).writerPending = true) :
    ∃ ns, Lock.run l (Lock.enter l i) = ((l, ns), .done .refused) := by
  obtain ⟨m, ns, h⟩ := W.step_look hl i
  have hj : Entry.judge (W.word l (i.slot W.size)) 0 = .done (.ok false) := by rw [Entry.judge, if_pos hp]
  rw [hj] at h
  have hlast : Lock.Gets 1 (l, []) (Lock.enter l i) ((l, [] ++ ns), .done .refused) :=
    .last (W.waits_enter l i) (Lock.noted_eq h [])
  have := W.bound hl
  have := W.pos
  exact ⟨_, hlast.alone_done (by omega)⟩

/-- One look and one swap. -/
theorem enters (hl : W.Of l) {i : Index} (hp : (W.word l (i.slot W.size)).writerPending = false)
    (hr : (W.word l (i.slot W.size)).readers < Word.maxReaders) : ∃ ns, Lock.run l (Lock.enter l i) =
      ((W.put l (i.slot W.size) (W.word l (i.slot W.size)).enter, ns), .done .entered) := by
  obtain ⟨m, ns₁, h₁⟩ := W.step_look hl i
  have hj : Entry.judge (W.word l (i.slot W.size)) 0 = .more (.swap (W.word l (i.slot W.size)) 0) := by
    rw [Entry.judge, hp, if_neg Bool.false_ne_true, if_pos hr]
  rw [hj] at h₁
  obtain ⟨m', ns₂, h₂⟩ := W.step_entering hl i (.swap (W.word l (i.slot W.size)) 0) m
  simp only [Entry.step, ↓reduceIte] at h₂
  have htwo : Lock.Gets 2 (l, []) (Lock.enter l i) _ :=
    .next (W.waits_enter l i) (Lock.noted_eq h₁ []) (.last (W.waits_entering l i _ m) (Lock.noted_eq h₂ _))
  have := W.bound hl
  have := W.pos
  exact ⟨_, htwo.alone_done (by omega)⟩

/-- Where no writer is, nobody is turned away. -/
theorem admits (hl : W.Of l) {i : Index} (hp : (W.word l (i.slot W.size)).writerPending = false) :
    (Lock.run l (Lock.enter l i)).2 ≠ .done .refused := by
  by_cases hr : (W.word l (i.slot W.size)).readers < Word.maxReaders
  · obtain ⟨ns, h⟩ := W.enters hl hp hr
    rw [h]
    intro he
    cases he
  · obtain ⟨m, ns, h⟩ := W.step_look hl i
    have hj : Entry.judge (W.word l (i.slot W.size)) 0 = .done (.error .tooManyReaders) := by
      rw [Entry.judge, hp, if_neg Bool.false_ne_true, if_neg hr]
    rw [hj] at h
    have hlast : Lock.Gets 1 (l, []) (Lock.enter l i) ((l, [] ++ ns), .done (.failed .tooManyReaders)) :=
      .last (W.waits_enter l i) (Lock.noted_eq h [])
    have := W.bound hl
    have := W.pos
    rw [Lock.run, hlast.alone_done (by omega)]
    intro he
    cases he

theorem leaves (hl : W.Of l) {i : Index} {n : Nat} {b : Bool} (hc : (W.word l (i.slot W.size)).Counts (n + 1) b) :
    ∃ ns, Lock.run l (Lock.leave l i) =
      ((W.put l (i.slot W.size) (W.word l (i.slot W.size)).leave, ns), .done .finished) := by
  obtain ⟨ns, h⟩ := W.step_leave hl i
  rw [hc.release] at h
  have hlast : Lock.Gets 1 (l, []) (Lock.leave l i) _ := .last (W.waits_leave l i) (Lock.noted_eq h [])
  have := W.bound hl
  have := W.pos
  exact ⟨_, hlast.alone_done (by omega)⟩

/-- What a lock shows after a change of one of its words. -/
theorem shows_put (hl : W.Sane l) {k : Nat} {w : Word} (hk : k < W.size) (f : Nat → Nat)
    (hc : w.Counts (f (W.word l k).readers.toNat) (W.word l k).writerPending) : W.Sane (W.put l k w) ∧ ∀ j < W.size,
      (W.word (W.put l k w) j).readers.toNat =
          (if j = k then f (W.word l j).readers.toNat else (W.word l j).readers.toNat) ∧
        (W.word (W.put l k w) j).writerPending = (W.word l j).writerPending := by
  have hone : ∀ j < W.size, (W.word (W.put l k w) j).Counts
      (if j = k then f (W.word l j).readers.toNat else (W.word l j).readers.toNat) (W.word l j).writerPending := by
    intro j hj
    rw [W.word_put hl.1 w hk hj]
    by_cases hjk : j = k
    · rw [if_pos hjk.symm, if_pos hjk, hjk]
      exact hc
    · rw [if_neg (Ne.symm hjk), if_neg hjk]
      exact hl.2 j hj
  exact ⟨⟨W.of_put hl.1 k w, fun j hj => counts_self (hone j hj)⟩,
    fun j hj => ⟨(hone j hj).readers, (hone j hj).writerPending⟩⟩

/-- What it shows after an unblock. -/
theorem unblocks (hl : W.Sane l) (hp : ∀ j < W.size, (W.word l j).writerPending = true) :
    ∃ l' ns, Lock.run l (Lock.unblock l) = ((l', ns), .done .finished) ∧ W.Sane l' ∧ ∀ j < W.size,
      (W.word l' j).readers.toNat = (W.word l j).readers.toNat ∧ (W.word l' j).writerPending = false := by
  have hpos := W.pos
  obtain ⟨l', ns, h, hof, hwords⟩ := W.gets_free [] (W.size - 1) (k := 0) hl.1 (by omega) fun j _ hj => hp j hj
  have hone : ∀ j < W.size, (W.word l' j).Counts (W.word l j).readers.toNat false := by
    intro j hj
    rw [hwords j hj, if_pos (Nat.zero_le j)]
    exact (hl.2 j hj).lower
  rw [← W.unblock l] at h
  have hbound := W.bound hl.1
  exact ⟨l', ns, h.alone_done (by omega), ⟨hof, fun j hj => counts_self (hone j hj)⟩,
    fun j hj => ⟨(hone j hj).readers, (hone j hj).writerPending⟩⟩

theorem enters_shows (hl : W.Sane l) {i : Index} (hp : (W.word l (i.slot W.size)).writerPending = false)
    (hr : (W.word l (i.slot W.size)).readers.toNat < Word.maxReaders.toNat) :
    ∃ l' ns, Lock.run l (Lock.enter l i) = ((l', ns), .done .entered) ∧ W.Sane l' ∧ ∀ j < W.size,
      (W.word l' j).readers.toNat =
          (if j = i.slot W.size then (W.word l j).readers.toNat + 1 else (W.word l j).readers.toNat) ∧
        (W.word l' j).writerPending = (W.word l j).writerPending := by
  have hlt := UInt32.lt_iff_toNat_lt.mpr hr
  have hc := hl.2 _ (W.slot_lt i)
  rw [hp] at hc
  obtain ⟨ns, h⟩ := W.enters hl.1 hp hlt
  exact ⟨_, ns, h, W.shows_put hl (W.slot_lt i) (· + 1) (hp ▸ hc.enter hlt)⟩

theorem leaves_shows (hl : W.Sane l) {i : Index} (hr : 0 < (W.word l (i.slot W.size)).readers.toNat) :
    ∃ l' ns, Lock.run l (Lock.leave l i) = ((l', ns), .done .finished) ∧ W.Sane l' ∧ ∀ j < W.size,
      (W.word l' j).readers.toNat =
          (if j = i.slot W.size then (W.word l j).readers.toNat - 1 else (W.word l j).readers.toNat) ∧
        (W.word l' j).writerPending = (W.word l j).writerPending := by
  have hc := hl.2 _ (W.slot_lt i)
  rw [← Nat.sub_add_cancel hr] at hc
  obtain ⟨ns, h⟩ := W.leaves hl.1 hc
  exact ⟨_, ns, h, W.shows_put hl (W.slot_lt i) (· - 1) hc.leave⟩

def face : Face L T where
  size := W.size
  pos := W.pos
  Sane := W.Sane
  readers l j := (W.word l j).readers.toNat
  bit l j := (W.word l j).writerPending
  limit := Word.maxReaders.toNat
  paused k := W.blocking k (.drain 0 ⟨0⟩)
  refuses hl _ := W.refuses hl.1
  admits hl _ := W.admits hl.1
  enters hl _ := W.enters_shows hl
  leaves hl _ := W.leaves_shows hl
  stops hl _ _ ht _ := W.stops hl ht
  ends hl _ _ := W.ends hl
  blocked hl := W.blocked hl.1
  unblocks := W.unblocks

end Worded

/-! ## The counter and its flag -/

namespace CountedLock

theorem run_enter_free {l : CountedLock} (h : l.writer = false) (i : Index) :
    Lock.run l (Lock.enter l i) = (({ l with readers := l.readers + 1 }, []), .done .entered) := by
  obtain ⟨n, b⟩ := l
  obtain rfl : b = false := h
  have hcount : Lock.noted ((⟨n, false⟩, []) : CountedLock × List Note) Task.count =
      ((⟨n + 1, false⟩, []), .more .check) := rfl
  have hcheck : Lock.noted ((⟨n + 1, false⟩, []) : CountedLock × List Note) Task.check =
      ((⟨n + 1, false⟩, []), .done .entered) := rfl
  exact (alone_succ_more rfl hcount).trans (alone_succ_done rfl hcheck)

theorem run_leave {l : CountedLock} (h : l.readers ≠ 0) (i : Index) :
    Lock.run l (Lock.leave l i) = (({ l with readers := l.readers - 1 }, []), .done .finished) := by
  have hleave : Lock.noted (l, []) Task.leave = (({ l with readers := l.readers - 1 }, []), .done .finished) := by
    simp only [Lock.noted, Lock.step, step, if_neg h, List.append_nil]
  exact alone_succ_done rfl hleave

/-- A writer that has set the flag waits as long as there are readers. -/
theorem gets_drained {l : CountedLock} (h : l.readers = 0) (ns : List Note) : ∃ ns',
    Lock.Gets 1 (l, ns) (.drain 0) ((l, ns'), .done .finished) := by
  have hs : Lock.step l (.drain 0) =
      (l, .done .finished, [.sample .writeWaitYields 0, .line (.countedBlocked 0)]) := by
    simp only [Lock.step, step, if_pos h]
  have hw : Lock.waits l (.drain 0) = false := by simp [Lock.waits, waits, h]
  exact ⟨_, .last hw (Lock.noted_eq hs ns)⟩

/-- Where a writer is: about to begin, or waiting with the flag set. -/
theorem gets_drain {l : CountedLock} {t : Task} {k : Nat}
    (ht : t = Lock.block l ∧ k = 0 ∨ t = .drain 0 ∧ k < 1 ∧ l.writer = true) :
    k = 0 ∧ ∃ ns, Lock.Gets 1 (l, []) t (({ l with writer := true }, ns), .more (.drain 0)) := by
  rcases ht with ⟨rfl, rfl⟩ | ⟨rfl, hk, hw⟩
  · have hs : Lock.step l .raise = ({ l with writer := true }, .more (.drain 0), []) := rfl
    exact ⟨rfl, _, .next rfl (Lock.noted_eq hs []) .here⟩
  · have hself : { l with writer := true } = l := by rw [← hw]
    rw [hself]
    exact ⟨by omega, _, .here⟩

theorem toNat_sub_one {n : UInt32} (h : 0 < n.toNat) : (n - 1).toNat = n.toNat - 1 := by
  have hlt := n.toNat_lt
  rw [toNat_pred]
  omega

/-- Whatever it counts, and whoever has set its flag. -/
def Sane (_ : CountedLock) : Prop := True

variable {l : CountedLock}

theorem enters_shows (hp : l.writer = false) (i : Index) (hr : l.readers.toNat < 0xFFFFFFFF) :
    ∃ l' ns, Lock.run l (Lock.enter l i) = ((l', ns), .done .entered) ∧ Sane l' ∧ ∀ j < 1,
      l'.readers.toNat = (if j = i.slot 1 then l.readers.toNat + 1 else l.readers.toNat) ∧ l'.writer = l.writer := by
  refine ⟨_, _, run_enter_free hp i, trivial, ?_⟩
  intro j hj
  rw [if_pos (Worded.eq_of_lt_one hj (i.slot_lt Nat.one_pos)), toNat_succ]
  exact ⟨by omega, rfl⟩

theorem leaves_shows (i : Index) (hr : 0 < l.readers.toNat) :
    ∃ l' ns, Lock.run l (Lock.leave l i) = ((l', ns), .done .finished) ∧ Sane l' ∧ ∀ j < 1,
      l'.readers.toNat = (if j = i.slot 1 then l.readers.toNat - 1 else l.readers.toNat) ∧ l'.writer = l.writer := by
  have hne : l.readers ≠ 0 := by
    intro h
    rw [h] at hr
    exact Nat.lt_irrefl 0 hr
  refine ⟨_, _, run_leave hne i, trivial, ?_⟩
  intro j hj
  rw [if_pos (Worded.eq_of_lt_one hj (i.slot_lt Nat.one_pos))]
  exact ⟨toNat_sub_one hr, rfl⟩

theorem admits {i : Index} (hp : l.writer = false) : (Lock.run l (Lock.enter l i)).2 ≠ .done .refused := by
  rw [run_enter_free hp i]
  intro h
  cases h

theorem stops {t : Task} {k : Nat} (ht : t = Lock.block l ∧ k = 0 ∨ t = .drain 0 ∧ k < 1 ∧ l.writer = true)
    {m : Nat} (hr : 0 < l.readers.toNat) : ∃ l' ns, Lock.run l t = ((l', ns), .more (.drain 0)) ∧ Sane l' ∧
      ∀ j < 1, l'.readers.toNat = l.readers.toNat ∧ l'.writer = (l.writer || decide (k ≤ j ∧ j ≤ m)) := by
  obtain ⟨rfl, ns, h⟩ := gets_drain ht
  have hwait : Lock.waits ({ l with writer := true } : CountedLock) (.drain 0) = true := by
    show (l.readers != 0) = true
    rw [bne_iff_ne]
    intro h0
    rw [h0] at hr
    exact Nat.lt_irrefl 0 hr
  refine ⟨_, ns, h.alone_halt hwait (Nat.le_add_left 1 3), trivial, ?_⟩
  intro j hj
  rw [decide_eq_true (by omega), Bool.or_true]
  exact ⟨rfl, rfl⟩

theorem ends {t : Task} {k : Nat} (ht : t = Lock.block l ∧ k = 0 ∨ t = .drain 0 ∧ k < 1 ∧ l.writer = true)
    (he : ∀ j, k ≤ j → j < 1 → l.readers.toNat = 0) : ∃ l' ns, Lock.run l t = ((l', ns), .done .finished) ∧ Sane l' ∧
      ∀ j < 1, l'.readers.toNat = l.readers.toNat ∧ l'.writer = (l.writer || decide (k ≤ j)) := by
  obtain ⟨rfl, ns₁, h₁⟩ := gets_drain ht
  have hr : l.readers = 0 := UInt32.toNat_inj.mp (he 0 (Nat.le_refl 0) Nat.one_pos)
  obtain ⟨ns, h₂⟩ := gets_drained (l := { l with writer := true }) hr ns₁
  refine ⟨_, ns, (h₁.trans h₂).alone_done (Nat.le_add_left 2 2), trivial, ?_⟩
  intro j _
  rw [decide_eq_true (Nat.zero_le j), Bool.or_true]
  exact ⟨rfl, rfl⟩

theorem run_unblock (l : CountedLock) :
    Lock.run l (Lock.unblock l) = (({ l with writer := false }, []), .done .finished) := by
  have hs : Lock.step l .unblock = ({ l with writer := false }, .done .finished, []) := rfl
  exact alone_succ_done rfl (Lock.noted_eq hs [])

def face : Face CountedLock Task where
  size := 1
  pos := Nat.one_pos
  Sane := Sane
  readers l _ := l.readers.toNat
  bit l _ := l.writer
  limit := 0xFFFFFFFF
  paused _ := .drain 0
  refuses _ i hp := ⟨_, run_enter_refused hp i⟩
  admits _ _ := admits
  enters _ i hp := enters_shows hp i
  leaves _ i := leaves_shows i
  stops _ _ _ ht _ _ _ _ := stops ht
  ends _ _ _ := ends
  blocked _ hb := ⟨0, Nat.one_pos, hb⟩
  unblocks {l} _ _ := ⟨_, _, run_unblock l, trivial, fun _ _ => ⟨rfl, rfl⟩⟩

end CountedLock

end BusyWait
