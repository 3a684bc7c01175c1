import BusyWait.Proofs.Lock.Whole
import BusyWait.Proofs.Stats.Ledger

/-
  BusyWait.Proofs.Lock.Dues — what the operations of a lock record.

  Run alone, an operation records the same wherever it comes to its end: so much for a
  reader that gets in, so much for one that is refused, nothing for one that breaks off,
  and so much for each word that a writer takes (`Dues`). A writer that waits has the
  words behind it on record already.

  - `Worded.Notes.dues`, `CountedLock.dues`: those of the locks.
  - `Dues.Billed`: all counters show what is due for so many attempts answered and so
    many words taken, and so does each of them for some of these.
-/

namespace BusyWait

/-! ## What is due -/

/-- What the operations of a lock record when they run alone. -/
structure Dues (L T : Type) [Lock L T] where
  /-- The words that a writer takes. -/
  size : Nat
  Of : L → Prop
  admission : List Sample
  refusal : List Sample
  /-- For each word that a writer takes. -/
  session : List Sample
  /-- What is left to do for a writer that waits, with so many words behind it. -/
  Paused : T → Nat → Prop
  enters : ∀ {l : L}, Of l → ∀ i, ∃ l' ns v, Lock.run l (Lock.enter l i) = ((l', ns), .done v) ∧ Of l' ∧
    (v = .entered ∧ Note.samples ns = admission ∨ v = .refused ∧ Note.samples ns = refusal ∨
      (∃ f, v = .failed f) ∧ Note.samples ns = [])
  leaves : ∀ {l : L}, Of l → ∀ i, ∃ l' ns v, Lock.run l (Lock.leave l i) = ((l', ns), .done v) ∧ Of l' ∧
    Note.samples ns = []
  unblocks : ∀ {l : L}, Of l → ∃ l' ns v, Lock.run l (Lock.unblock l) = ((l', ns), .done v) ∧ Of l' ∧
    Note.samples ns = []
  blocks : ∀ {l : L}, Of l → ∀ {t k}, t = Lock.block l ∧ k = 0 ∨ Paused t k →
    (∃ l' ns t' m, Lock.run l t = ((l', ns), .more t') ∧ Of l' ∧ Paused t' m ∧ k ≤ m ∧
      Note.samples ns = (List.replicate (m - k) session).flatten) ∨
    ∃ l' ns, Lock.run l t = ((l', ns), .done .finished) ∧ Of l' ∧ k ≤ size ∧
      Note.samples ns = (List.replicate (size - k) session).flatten

namespace Worded.Notes

variable {L T : Type} [Lock L T] {W : Worded L T} (N : W.Notes)
include N

theorem enters {l : L} (hl : W.Of l) (i : Index) : ∃ l' ns v, Lock.run l (Lock.enter l i) = ((l', ns), .done v) ∧
    W.Of l' ∧ (v = .entered ∧ Note.samples ns = Sample.admission ∨ v = .refused ∧ Note.samples ns = Sample.refusal ∨
      (∃ f, v = .failed f) ∧ Note.samples ns = []) := by
  obtain ⟨ns, hrun, hns⟩ := N.run_enter hl i
  refine ⟨_, ns, _, hrun, W.of_put hl _ _, ?_⟩
  rcases hw : (W.word l (i.slot W.size)).tryEnter.2 with f | _ | _
  · rw [hw] at hns
    exact .inr (.inr ⟨⟨f, rfl⟩, hns⟩)
  · rw [hw] at hns
    exact .inr (.inl ⟨rfl, hns⟩)
  · rw [hw] at hns
    exact .inl ⟨rfl, hns⟩

theorem leaves {l : L} (hl : W.Of l) (i : Index) : ∃ l' ns v, Lock.run l (Lock.leave l i) = ((l', ns), .done v) ∧
    W.Of l' ∧ Note.samples ns = [] := by
  obtain ⟨ns, hrun, hns⟩ := N.run_leave hl i
  exact ⟨_, ns, _, hrun, W.of_put hl _ _, hns⟩

theorem unblocks {l : L} (hl : W.Of l) : ∃ l' ns v, Lock.run l (Lock.unblock l) = ((l', ns), .done v) ∧
    W.Of l' ∧ Note.samples ns = [] := by
  have hlowered := N.run_unblock hl
  generalize Lock.run l (Lock.unblock l) = e at hlowered
  cases hlowered with
  | intro hof hns => exact ⟨_, _, _, rfl, hof, hns⟩

theorem blocks {l : L} (hl : W.Of l) {t : T} {k : Nat}
    (ht : t = Lock.block l ∧ k = 0 ∨ t = W.blocking k (.drain 0 ⟨0⟩) ∧ k < W.size) :
    (∃ l' ns t' m, Lock.run l t = ((l', ns), .more t') ∧ W.Of l' ∧
      (t' = W.blocking m (.drain 0 ⟨0⟩) ∧ m < W.size) ∧ k ≤ m ∧ Note.samples ns = Sample.sessions (m - k)) ∨
    ∃ l' ns, Lock.run l t = ((l', ns), .done .finished) ∧ W.Of l' ∧ k ≤ W.size ∧
      Note.samples ns = Sample.sessions (W.size - k) := by
  have hgone : k < W.size ∧ Gone W k (Lock.run l t) := by
    rcases ht with ⟨rfl, rfl⟩ | ⟨rfl, hk⟩
    · rw [W.block]
      exact ⟨W.pos, N.run_block hl W.pos .start⟩
    · exact ⟨hk, N.run_block hl hk .drain⟩
  obtain ⟨hk, hgone⟩ := hgone
  generalize Lock.run l t = e at hgone
  cases hgone with
  | waits hof hkm hm hns => exact .inl ⟨_, _, _, _, rfl, hof, ⟨rfl, hm⟩, hkm, hns⟩
  | through hof hns => exact .inr ⟨_, _, rfl, hof, by omega, hns⟩

/-- Those of a lock made of words. -/
def dues : Dues L T where
  size := W.size
  Of := W.Of
  admission := Sample.admission
  refusal := Sample.refusal
  session := Sample.session
  Paused t k := t = W.blocking k (.drain 0 ⟨0⟩) ∧ k < W.size
  enters := N.enters
  leaves := N.leaves
  unblocks := N.unblocks
  blocks := N.blocks

end Worded.Notes

namespace CountedLock

/-- What is recorded of a reader that finds a writer. -/
def refusal : List Sample := [.event .readRejected]

def session : List Sample := [.size .writeWaitYields 0]

theorem enters (l : CountedLock) (i : Index) : ∃ l' ns v, Lock.run l (Lock.enter l i) = ((l', ns), .done v) ∧ Sane l' ∧
    (v = .entered ∧ Note.samples ns = [] ∨ v = .refused ∧ Note.samples ns = refusal ∨
      (∃ f, v = .failed f) ∧ Note.samples ns = []) := by
  cases hw : l.writer with
  | true => exact ⟨_, _, _, run_enter_refused hw i, trivial, .inr (.inl ⟨rfl, rfl⟩)⟩
  | false => exact ⟨_, _, _, run_enter_free hw i, trivial, .inl ⟨rfl, rfl⟩⟩

theorem leaves_any (l : CountedLock) (i : Index) : ∃ l' ns v, Lock.run l (Lock.leave l i) = ((l', ns), .done v) ∧
    Sane l' ∧ Note.samples ns = [] :=
  ⟨_, [], _, alone_succ_done rfl rfl, trivial, rfl⟩

/-- Whoever has set or cleared its flag, a writer waits as long as there are readers. -/
theorem blocks (l : CountedLock) {t : Task} {k : Nat} (ht : t = Lock.block l ∧ k = 0 ∨ t = .drain 0 ∧ k = 0) :
    (∃ l' ns t' m, Lock.run l t = ((l', ns), .more t') ∧ Sane l' ∧ (t' = .drain 0 ∧ m = 0) ∧ k ≤ m ∧
      Note.samples ns = (List.replicate (m - k) session).flatten) ∨
    ∃ l' ns, Lock.run l t = ((l', ns), .done .finished) ∧ Sane l' ∧ k ≤ 1 ∧
      Note.samples ns = (List.replicate (1 - k) session).flatten := by
  have hbegin : k = 0 ∧ ∃ l', Lock.Gets 1 (l, []) t ((l', []), .more (.drain 0)) := by
    rcases ht with ⟨rfl, rfl⟩ | ⟨rfl, rfl⟩
    · have hs : Lock.step l .raise = ({ l with writer := true }, .more (.drain 0), []) := rfl
      exact ⟨rfl, _, .next rfl (Lock.noted_eq hs []) .here⟩
    · exact ⟨rfl, l, .here⟩
  obtain ⟨rfl, l', h⟩ := hbegin
  by_cases hr : l'.readers = 0
  · right
    have hs : Lock.step l' (.drain 0) =
        (l', .done .finished, [.sample .writeWaitYields 0, .line (.countedBlocked 0)]) := by
      simp only [Lock.step, step, if_pos hr]
    have hw : Lock.waits l' (.drain 0) = false := by simp [Lock.waits, waits, hr]
    have hlast : Lock.Gets 1 (l', []) (.drain 0) _ := .last hw (Lock.noted_eq hs [])
    exact ⟨l', _, (h.trans hlast).alone_done (Nat.le_add_left 2 2), trivial, Nat.zero_le 1, rfl⟩
  · left
    have hw : Lock.waits l' (.drain 0) = true := by simp [Lock.waits, waits, hr]
    exact ⟨l', _, _, 0, h.alone_halt hw (Nat.le_add_left 1 3), trivial, ⟨rfl, rfl⟩, Nat.le_refl 0, rfl⟩

def dues : Dues CountedLock Task where
  size := 1
  Of := Sane
  admission := []
  refusal := refusal
  session := session
  Paused t k := t = .drain 0 ∧ k = 0
  enters _ := enters _
  leaves _ := leaves_any _
  unblocks {l} _ := ⟨_, _, _, run_unblock l, trivial, rfl⟩
  blocks _ := blocks _

end CountedLock

/-! ## What has been recorded -/

namespace Dues

variable {L T : Type} [Lock L T] (D : Dues L T)

/-- The samples of so many attempts answered, and of so many words taken. -/
def Bill (xs : List Sample) (answers : List Bool) (taken : Nat) : Prop :=
  ∀ p : Sample → Bool, xs.countP p = answers.count true * D.admission.countP p +
    answers.count false * D.refusal.countP p + taken * D.session.countP p

theorem bill_nil : D.Bill [] [] 0 := by
  intro p
  simp

theorem bill_admission : D.Bill D.admission [true] 0 := by
  intro p
  simp

theorem bill_refusal : D.Bill D.refusal [false] 0 := by
  intro p
  simp

theorem bill_sessions (n : Nat) : D.Bill (List.replicate n D.session).flatten [] n := by
  intro p
  simp [List.countP_flatten]

variable {D}

theorem Bill.append {xs ys : List Sample} {as bs : List Bool} {m n : Nat} (hx : D.Bill xs as m)
    (hy : D.Bill ys bs n) : D.Bill (xs ++ ys) (as ++ bs) (m + n) := by
  intro p
  rw [List.countP_append, hx p, hy p, List.count_append, List.count_append, Nat.add_mul, Nat.add_mul, Nat.add_mul]
  omega

/-- The counters are made of what is due, as a whole and in every part. -/
structure Billed (D : Dues L T) (b : Book) (l : Ledger) (us : List Thread) (answers : List Bool) (taken : Nat) :
    Prop where
  parts : l.Parts us
  holds : b.Holds l
  recorded : D.Bill l.recorded answers taken
  merged : ∃ as n, D.Bill (l.merged.map (·.1)) as n
  kept : ∀ t, ∃ as n, D.Bill ((l.kept t).map (·.1)) as n

theorem billed_empty (D : Dues L T) : D.Billed .empty .start [] [] 0 :=
  ⟨Ledger.parts_start, Book.holds_empty, D.bill_nil, ⟨[], 0, D.bill_nil⟩, fun _ => ⟨[], 0, D.bill_nil⟩⟩

variable {b : Book} {l : Ledger} {us : List Thread} {answers : List Bool} {taken : Nat}

theorem Billed.notes (h : D.Billed b l us answers taken) (t : Thread) {ns : List Note} {as : List Bool} {n : Nat}
    (hns : D.Bill (Note.samples ns) as n) :
    D.Billed (b.notes t ns) (l.recordAll t (Note.samples ns)) (us.insert t) (answers ++ as) (taken + n) := by
  refine ⟨(h.parts.come t).recordAll List.mem_insert_self _, h.holds.notes t ns, ?_, ?_, ?_⟩
  · rw [Ledger.recorded_recordAll]
    exact h.recorded.append hns
  · rw [Ledger.merged_recordAll]
    exact h.merged
  · intro u
    rw [Ledger.kept_recordAll]
    obtain ⟨bs, m, hkept⟩ := h.kept u
    by_cases hu : u = t
    · rw [if_pos hu]
      exact ⟨_, _, hkept.append hns⟩
    · rw [if_neg hu, List.append_nil]
      exact ⟨bs, m, hkept⟩

theorem Billed.flush (h : D.Billed b l us answers taken) (t : Thread) :
    D.Billed (b.flush t) (l.flush t) us answers taken := by
  refine ⟨h.parts.flush t, h.holds.flush t, h.recorded, ?_, ?_⟩
  · obtain ⟨as, m, hmerged⟩ := h.merged
    obtain ⟨bs, n, hkept⟩ := h.kept t
    refine ⟨as ++ bs, m + n, ?_⟩
    show D.Bill ((l.merged ++ l.kept t).map (·.1)) _ _
    rw [List.map_append]
    exact hmerged.append hkept
  · intro u
    show ∃ as n, D.Bill ((l.setKept t [] u).map (·.1)) as n
    by_cases hu : u = t
    · rw [hu, Ledger.setKept_self]
      exact ⟨[], 0, D.bill_nil⟩
    · rw [Ledger.setKept_of_ne hu]
      exact h.kept u

/-! ## What the counters show of it -/

theorem Bill.size {xs : List Sample} {as : List Bool} {n : Nat} (h : D.Bill xs as n) (name : SizeName) :
    ((Stats.of xs).size name).count = as.count true * D.admission.countP (Sample.isSize name) +
      as.count false * D.refusal.countP (Sample.isSize name) + n * D.session.countP (Sample.isSize name) := by
  rw [((Stats.shows_of xs).size name).count, Sample.length_sizes]
  exact h _

theorem Bill.event {xs : List Sample} {as : List Bool} {n : Nat} (h : D.Bill xs as n) (name : EventName) :
    ((Stats.of xs).event name).count = as.count true * D.admission.count (.event name) +
      as.count false * D.refusal.count (.event name) + n * D.session.count (.event name) := by
  rw [Stats.event_of]
  exact h _

/-- The global counters show some of what is due, and all of it where no thread keeps any. -/
theorem Billed.global (h : D.Billed b l us answers taken) : ∃ xs as n, b.global = .of xs ∧ D.Bill xs as n ∧
    ((∀ t, b.ownOf t = .empty) → as = answers ∧ n = taken) := by
  by_cases hown : ∀ t, b.ownOf t = .empty
  · exact ⟨_, answers, taken, h.holds.settled h.parts hown, h.recorded, fun _ => ⟨rfl, rfl⟩⟩
  · obtain ⟨as, n, hmerged⟩ := h.merged
    exact ⟨_, as, n, h.holds.global, hmerged, fun h => absurd h hown⟩

end Dues

end BusyWait
