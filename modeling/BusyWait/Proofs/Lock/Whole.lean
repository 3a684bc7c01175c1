import BusyWait.Proofs.Lock.Faces
import BusyWait.Proofs.Stats.Samples

/-
  BusyWait.Proofs.Lock.Whole — whole operations of the locks made of words, on any words.

  The words need not count readers: a release too many borrows from the writer's bit, an
  unblock may take the bit from a writer that waits. What an operation does alone still
  depends on the words only. No swap fails, so nothing is counted but the operation
  itself, and no reader backs off (`Worded.Notes`).

  - `Notes.run_enter`, `Notes.run_leave`, `Notes.run_unblock`: what becomes of the words
    and what is recorded, for a reader and for a writer that goes.
  - `Notes.run_block`: a writer that comes, or waits, gets through or stops at a word, and
    records each word that it has behind it.
-/

namespace BusyWait

/-! ## One word -/

/-- What becomes of a word when a reader tries to enter alone. -/
def Word.tryEnter (w : Word) : Word × Except Fault Bool :=
  if w.writerPending then (w, .ok false)
  else if w.readers < maxReaders then (w.enter, .ok true)
  else (w, .error .tooManyReaders)

namespace Sample

/-- What is recorded of a reader that gets in alone. -/
def admission : List Sample := [.size .readCasFailures 0]

def refusal : List Sample := [.size .readCasFailures 0, .event .readRejected]

/-- What is recorded of a writer at each word. -/
def session : List Sample := [.size .writeCasFailures 0, .size .writeWaitYields 0]

/-- A reader that breaks off records nothing. -/
def ofEntry : Except Fault Bool → List Sample
  | .ok true => admission
  | .ok false => refusal
  | .error _ => []

/-- A writer's at so many words. -/
def sessions (n : Nat) : List Sample := (List.replicate n session).flatten

theorem sessions_succ (n : Nat) : sessions (n + 1) = sessions n ++ session := by
  unfold sessions
  rw [List.replicate_succ', List.flatten_append]
  rfl

end Sample

namespace Session

/-- A writer's session with the word `w`, alone, and so many accesses before it has the word. -/
inductive Alone (w : Word) : Session → Nat → Prop
  | start : Alone w start 3
  | swap : Alone w (.request (.swap w 0)) 2
  | drain : Alone w (.drain 0 ⟨0⟩) 1

end Session

/-! ## What the accesses record -/

/-- The samples of each access that no other thread has come before. -/
structure Worded.Notes {L T : Type} [Lock L T] (W : Worded L T) : Prop where
  entering : ∀ {l : L}, W.Of l → ∀ i e, e.contended (W.word l (i.slot W.size)) = none →
    ∃ ns, Lock.step l (W.entering i e 0) = (W.put l (i.slot W.size) (e.step (W.word l (i.slot W.size))).1,
        (e.step (W.word l (i.slot W.size))).2.map (W.entering i · 0) .ofEntry, ns) ∧
      Note.samples ns = ((e.step (W.word l (i.slot W.size))).2.result?.map Sample.ofEntry).getD []
  leave : ∀ (l : L) i, Note.samples (Lock.step l (Lock.leave l i)).2.2 = []
  blocking : ∀ {l : L}, W.Of l → ∀ {k}, k < W.size → ∀ {s s' w}, s.step (W.word l k) = (w, .more s') →
    Note.samples (Lock.step l (W.blocking k s)).2.2 = []
  blocked : ∀ {l : L}, W.Of l → ∀ {k}, k < W.size → ∀ {s w}, s.step (W.word l k) = (w, .done (.ok (0, 0))) →
    Note.samples (Lock.step l (W.blocking k s)).2.2 = Sample.session
  unblocking : ∀ (l : L) k, Note.samples (Lock.step l (W.unblocking k)).2.2 = []
  /-- An unblock ends at the first word that is not blocked. -/
  breaking : ∀ {l : L}, W.Of l → ∀ {k}, k < W.size → ∀ {w f}, (W.word l k).unblock = (w, .error f) →
    ∃ ns, Lock.step l (W.unblocking k) = (W.put l k w, .done (.failed f), ns)

namespace StripedLock

theorem step_entering_alone {n : Nat} {l : StripedLock} (h : l.words.size = n + 1) (i : Index) {e : Entry}
    (he : e.contended (l.word (i.slot (n + 1))) = none) : ∃ ns, step l (.enter i e 0) =
      (l.put (i.slot (n + 1)) (e.step (l.word (i.slot (n + 1)))).1,
        (e.step (l.word (i.slot (n + 1)))).2.map (.enter i · 0) .ofEntry, ns) ∧
      Note.samples ns = ((e.step (l.word (i.slot (n + 1)))).2.result?.map Sample.ofEntry).getD [] := by
  have hs : l.stripeOf i = i.slot (n + 1) := by rw [stripeOf, h]
  simp only [step, hs, he]
  rcases e.step (l.word (i.slot (n + 1))) with ⟨w, e' | _ | b⟩
  · exact ⟨_, rfl, rfl⟩
  · exact ⟨_, rfl, rfl⟩
  · cases b
    · exact ⟨_, rfl, rfl⟩
    · exact ⟨_, rfl, rfl⟩

theorem samples_block_more {l : StripedLock} {k : Nat} {s s' : Session} {w : Word}
    (hs : s.step (l.word k) = (w, .more s')) : Note.samples (step l (.block k s 0)).2.2 = [] := by
  simp only [step, hs]
  rfl

theorem samples_block_done {l : StripedLock} {k : Nat} {s : Session} {w : Word}
    (hs : s.step (l.word k) = (w, .done (.ok (0, 0)))) :
    Note.samples (step l (.block k s 0)).2.2 = Sample.session := by
  simp only [step, hs]
  by_cases hk : k + 1 < l.words.size
  · simp [hk]
    rfl
  · simp [hk]
    rfl

theorem samples_unblock (l : StripedLock) (k : Nat) : Note.samples (step l (.unblock k)).2.2 = [] := by
  simp only [step]
  rcases (l.word k).unblock with ⟨w, _ | _⟩ <;> rfl

theorem step_unblock_error {l : StripedLock} {k : Nat} {w : Word} {f : Fault}
    (hw : (l.word k).unblock = (w, .error f)) : step l (.unblock k) = (l.put k w, .done (.failed f), []) := by
  simp only [step, hw]

theorem notes (n : Nat) : (worded n).Notes where
  entering h i _ he := step_entering_alone h i he
  leave _ _ := rfl
  blocking _ _ _ _ _ _ hs := samples_block_more hs
  blocked _ _ _ _ _ hs := samples_block_done hs
  unblocking := samples_unblock
  breaking _ _ _ _ _ hw := ⟨_, step_unblock_error hw⟩

end StripedLock

namespace RetryLock

theorem step_entering_alone {l : RetryLock} {e : Entry} (he : e.contended l.word = none) : ∃ ns,
    step l (.enter e 0) = (⟨(e.step l.word).1⟩, (e.step l.word).2.map (.enter · 0) .ofEntry, ns) ∧
      Note.samples ns = ((e.step l.word).2.result?.map Sample.ofEntry).getD [] := by
  simp only [step, he]
  rcases e.step l.word with ⟨w, e' | _ | b⟩
  · exact ⟨_, rfl, rfl⟩
  · exact ⟨_, rfl, rfl⟩
  · cases b
    · exact ⟨_, rfl, rfl⟩
    · exact ⟨_, rfl, rfl⟩

theorem samples_block_more {l : RetryLock} {s s' : Session} {w : Word} (hs : s.step l.word = (w, .more s')) :
    Note.samples (step l (.block s)).2.2 = [] := by
  simp only [step, hs]
  rfl

theorem samples_block_done {l : RetryLock} {s : Session} {w : Word} (hs : s.step l.word = (w, .done (.ok (0, 0)))) :
    Note.samples (step l (.block s)).2.2 = Sample.session := by
  simp only [step, hs]
  rfl

theorem step_unblock_error {l : RetryLock} {w : Word} {f : Fault} (hw : l.word.unblock = (w, .error f)) :
    step l .unblock = (⟨w⟩, .done (.failed f), []) := by
  simp only [step, hw]
  rfl

theorem notes : worded.Notes where
  entering _ _ _ he := step_entering_alone he
  leave _ _ := rfl
  blocking _ _ _ _ _ _ hs := samples_block_more hs
  blocked _ _ _ _ _ hs := samples_block_done hs
  unblocking _ _ := rfl
  breaking _ _ _ _ _ hw := ⟨_, step_unblock_error hw⟩

end RetryLock

namespace PatientLock

theorem step_entering_alone {l : PatientLock} {e : Entry} (he : e.contended l.word = none) : ∃ ns,
    step l (.enter e 0) =
        ({ l with word := (e.step l.word).1 }, (e.step l.word).2.map (.enter · 0) .ofEntry, ns) ∧
      Note.samples ns = ((e.step l.word).2.result?.map Sample.ofEntry).getD [] := by
  simp only [step, he]
  rcases e.step l.word with ⟨w, e' | _ | b⟩
  · exact ⟨_, rfl, rfl⟩
  · exact ⟨_, rfl, rfl⟩
  · cases b
    · exact ⟨_, rfl, rfl⟩
    · exact ⟨_, rfl, rfl⟩

theorem samples_block_more {l : PatientLock} {s s' : Session} {w : Word} (hs : s.step l.word = (w, .more s')) :
    Note.samples (step l (.block s)).2.2 = [] := by
  simp only [step, hs]
  rfl

theorem samples_block_done {l : PatientLock} {s : Session} {w : Word}
    (hs : s.step l.word = (w, .done (.ok (0, 0)))) : Note.samples (step l (.block s)).2.2 = Sample.session := by
  simp only [step, hs]
  rfl

theorem step_unblock_error {l : PatientLock} {w : Word} {f : Fault} (hw : l.word.unblock = (w, .error f)) :
    step l .unblock = ({ l with word := w }, .done (.failed f), []) := by
  simp only [step, hw]
  rfl

theorem notes (policy : Policy) : (worded policy).Notes where
  entering _ _ _ he := step_entering_alone he
  leave _ _ := rfl
  blocking _ _ _ _ _ _ hs := samples_block_more hs
  blocked _ _ _ _ _ hs := samples_block_done hs
  unblocking _ _ := rfl
  breaking _ _ _ _ _ hw := ⟨_, step_unblock_error hw⟩

end PatientLock

/-! ## Whole operations -/

/-- An operation that is alone has come to `E`, or goes on. -/
abbrev Lock.Onward {L T : Type} [Lock L T] : (Nat → L × List Note → T → Prop) →
    ((L × List Note) × Progress T Verdict → Prop) → Nat → L × List Note → T → Prop :=
  BusyWait.Onward Lock.noted fun s t => Lock.waits s.1 t

namespace Worded.Notes

theorem samples_quiet {ns ns' : List Note} (h : Note.samples ns = []) (h' : Note.samples ns' = []) :
    Note.samples (ns ++ ns') = [] := by
  rw [Note.samples_append, h, h']
  rfl

variable {L T : Type} [Lock L T] {W : Worded L T} (N : W.Notes) {l : L}
include N

/-! ## Readers -/

theorem run_enter (hl : W.Of l) (i : Index) : ∃ ns, Lock.run l (Lock.enter l i) =
      ((W.put l (i.slot W.size) (W.word l (i.slot W.size)).tryEnter.1, ns),
        .done (.ofEntry (W.word l (i.slot W.size)).tryEnter.2)) ∧
    Note.samples ns = Sample.ofEntry (W.word l (i.slot W.size)).tryEnter.2 := by
  have hself : W.put l (i.slot W.size) (W.word l (i.slot W.size)) = l := W.put_self hl (W.slot_lt i)
  have hbound := W.bound hl
  have hpos := W.pos
  obtain ⟨ns₁, hlook, hns₁⟩ := N.entering hl i .look rfl
  have hwaits := W.waits_entering l i .look 0
  rw [← W.enter l i] at hlook hwaits
  simp only [Entry.step, Entry.judge] at hlook hns₁
  unfold Word.tryEnter
  by_cases hp : (W.word l (i.slot W.size)).writerPending = true
  · rw [if_pos hp] at hlook hns₁ ⊢
    have hlast : Lock.Gets 1 (l, []) (Lock.enter l i) _ := .last hwaits (Lock.noted_eq hlook [])
    exact ⟨_, hlast.alone_done (by omega), hns₁⟩
  rw [if_neg hp] at hlook hns₁ ⊢
  by_cases hr : (W.word l (i.slot W.size)).readers < Word.maxReaders
  · rw [if_pos hr] at hlook hns₁ ⊢
    rw [hself] at hlook
    obtain ⟨ns₂, hswap, hns₂⟩ := N.entering hl i (.swap (W.word l (i.slot W.size)) 0)
      (by simp [Entry.contended])
    simp only [Entry.step, ↓reduceIte] at hswap hns₂
    have htwo : Lock.Gets 2 (l, []) (Lock.enter l i) _ :=
      .next hwaits (Lock.noted_eq hlook []) (.last (W.waits_entering l i _ 0) (Lock.noted_eq hswap _))
    refine ⟨_, htwo.alone_done (by omega), ?_⟩
    rw [List.nil_append, Note.samples_append, hns₁, hns₂]
    rfl
  · rw [if_neg hr] at hlook hns₁ ⊢
    have hlast : Lock.Gets 1 (l, []) (Lock.enter l i) _ := .last hwaits (Lock.noted_eq hlook [])
    exact ⟨_, hlast.alone_done (by omega), hns₁⟩

theorem run_leave (hl : W.Of l) (i : Index) : ∃ ns, Lock.run l (Lock.leave l i) =
      ((W.put l (i.slot W.size) (W.word l (i.slot W.size)).release.1, ns),
        .done (.ofExcept (W.word l (i.slot W.size)).release.2)) ∧ Note.samples ns = [] := by
  obtain ⟨ns, h⟩ := W.step_leave hl i
  have hns := N.leave l i
  rw [h] at hns
  have hlast : Lock.Gets 1 (l, []) (Lock.leave l i) _ := .last (W.waits_leave l i) (Lock.noted_eq h [])
  have hbound := W.bound hl
  have hpos := W.pos
  exact ⟨_, hlast.alone_done (by omega), hns⟩

/-! ## Writers that leave -/

/-- A writer that unblocks has come to a word, with so many words left; it records nothing. -/
inductive Lowering (W : Worded L T) : Nat → L × List Note → T → Prop
  | intro {l : L} {ns : List Note} {k : Nat} (hl : W.Of l) (hk : k < W.size) (hns : Note.samples ns = []) :
      Lowering W (W.size - k) (l, ns) (W.unblocking k)

inductive Lowered (W : Worded L T) : (L × List Note) × Progress T Verdict → Prop
  | intro {l : L} {ns : List Note} {v : Verdict} (hl : W.Of l) (hns : Note.samples ns = []) :
      Lowered W ((l, ns), .done v)

theorem lowering_onward {n : Nat} {s : L × List Note} {t : T} (h : Lowering W n s t) :
    Lock.Onward (Lowering W) (Lowered W) n s t := by
  cases h with
  | @intro l ns k hl hk hns =>
    have hwaits := W.waits_unblocking l k
    have hquiet := N.unblocking l k
    rcases hw : (W.word l k).unblock with ⟨w, f | _⟩
    · obtain ⟨ns', hs⟩ := N.breaking hl hk hw
      rw [hs] at hquiet
      exact .ends hwaits (Lock.noted_eq hs ns) (by omega) ⟨W.of_put hl k w, samples_quiet hns hquiet⟩
    · obtain ⟨ns', hs⟩ := W.step_unblocking hl hk hw
      rw [hs] at hquiet
      by_cases hlast : k + 1 < W.size
      · rw [if_pos hlast] at hs
        exact .goes hwaits (Lock.noted_eq hs ns) (by omega) (.intro (W.of_put hl k w) hlast (samples_quiet hns hquiet))
      · rw [if_neg hlast] at hs
        exact .ends hwaits (Lock.noted_eq hs ns) (by omega) ⟨W.of_put hl k w, samples_quiet hns hquiet⟩

theorem run_unblock (hl : W.Of l) : Lowered W (Lock.run l (Lock.unblock l)) := by
  have hbound := W.bound hl
  rw [W.unblock l]
  exact alone_ends (lowering_onward N) (.intro hl W.pos rfl) (by omega)

/-! ## Writers that come -/

/-- Where a writer is that began, or went on, at word `k`: it waits at a word, or is through; it has recorded the
    words that it has got since. -/
inductive Gone (W : Worded L T) (k : Nat) : (L × List Note) × Progress T Verdict → Prop
  | waits {l : L} {ns : List Note} {m : Nat} (hl : W.Of l) (hkm : k ≤ m) (hm : m < W.size)
      (hns : Note.samples ns = Sample.sessions (m - k)) : Gone W k ((l, ns), .more (W.blocking m (.drain 0 ⟨0⟩)))
  | through {l : L} {ns : List Note} (hl : W.Of l) (hns : Note.samples ns = Sample.sessions (W.size - k)) :
      Gone W k ((l, ns), .done .finished)

/-- On its way there, at word `m` and with so many accesses left. -/
inductive Going (W : Worded L T) (k : Nat) : Nat → L × List Note → T → Prop
  | intro {l : L} {ns : List Note} {m r : Nat} {s : Session} (hl : W.Of l) (hkm : k ≤ m) (hm : m < W.size)
      (hs : s.Alone (W.word l m) r) (hns : Note.samples ns = Sample.sessions (m - k)) :
      Going W k (3 * (W.size - m - 1) + r) (l, ns) (W.blocking m s)

section
variable {ns : List Note} {k m : Nat} (hl : W.Of l) (hkm : k ≤ m) (hm : m < W.size)
  (hns : Note.samples ns = Sample.sessions (m - k))
include hl hkm hm hns

/-- An access that leaves it at its word. -/
theorem going_within {s s' : Session} {w : Word} {r r' : Nat} (hwaits : s.waits (W.word l m) = false)
    (hstep : s.step (W.word l m) = (w, .more s')) (hs' : s'.Alone w r') (hr : r' < r) :
    Lock.Onward (Going W k) (Gone W k) (3 * (W.size - m - 1) + r) (l, ns)
      (W.blocking m s) := by
  obtain ⟨ns', hs⟩ := W.step_blocking hl hm hstep
  have hquiet := N.blocking hl hm hstep
  rw [hs] at hquiet
  have hsame : Note.samples (ns ++ ns') = Sample.sessions (m - k) := by
    rw [Note.samples_append, hns, hquiet, List.append_nil]
  have halone : s'.Alone (W.word (W.put l m w) m) r' := by
    rw [W.word_put hl w hm hm, if_pos rfl]
    exact hs'
  have hhalt := W.waits_blocking l m s hm
  rw [hwaits] at hhalt
  exact .goes hhalt (Lock.noted_eq hs ns) (by omega) (.intro (W.of_put hl m w) hkm hm halone hsame)

/-- Its word is its own: it goes on to the next, or is through. -/
theorem going_passes (hw : W.word l m = .owned) :
    Lock.Onward (Going W k) (Gone W k) (3 * (W.size - m - 1) + 1) (l, ns)
      (W.blocking m (.drain 0 ⟨0⟩)) := by
  have hhalt : Lock.waits l (W.blocking m (.drain 0 ⟨0⟩)) = false := by
    rw [W.waits_blocking l m _ hm, hw]
    rfl
  have hstep : (Session.drain 0 ⟨0⟩).step (W.word l m) = (W.word l m, .done (.ok (0, 0))) := by
    simp [Session.step, Drain.step, hw]
  obtain ⟨ns', hs⟩ := W.step_blocked hl hm hstep
  have hquiet := N.blocked hl hm hstep
  rw [hs] at hquiet
  have hmore : Note.samples (ns ++ ns') = Sample.sessions (m + 1 - k) := by
    rw [Note.samples_append, hns, hquiet, ← Sample.sessions_succ, Nat.sub_add_comm hkm]
  by_cases hlast : m + 1 < W.size
  · rw [if_pos hlast] at hs
    exact .goes hhalt (Lock.noted_eq hs ns) (by omega) (.intro (W.of_put hl m _) (by omega) hlast .start hmore)
  · rw [if_neg hlast] at hs
    have hsize : m + 1 = W.size := by omega
    rw [hsize] at hmore
    exact .ends hhalt (Lock.noted_eq hs ns) (by omega) (.through (W.of_put hl m _) hmore)

end

theorem going_onward {k n : Nat} {s : L × List Note} {t : T} (h : Going W k n s t) :
    Lock.Onward (Going W k) (Gone W k) n s t := by
  cases h with
  | @intro l ns m r s hl hkm hm halone hns =>
    cases halone with
    | start => exact going_within N hl hkm hm hns rfl rfl .swap (by omega)
    | swap =>
      have hstep : (Session.request (.swap (W.word l m) 0)).step (W.word l m) =
          ((W.word l m).raise, .more (.drain 0 ⟨0⟩)) := by simp [Session.step, Request.step]
      exact going_within N hl hkm hm hns rfl hstep .drain (by omega)
    | drain =>
      by_cases hw : W.word l m = .owned
      · exact going_passes N hl hkm hm hns hw
      · refine .halts ?_ (.waits hl hkm hm hns)
        show Lock.waits l (W.blocking m (.drain 0 ⟨0⟩)) = true
        rw [W.waits_blocking l m _ hm]
        exact bne_iff_ne.mpr hw

theorem run_block (hl : W.Of l) {k : Nat} (hk : k < W.size) {s : Session} {n : Nat} (hs : s.Alone (W.word l k) n) :
    Gone W k (Lock.run l (W.blocking k s)) := by
  have hn : n ≤ 3 := by cases hs <;> omega
  have hbound := W.bound hl
  have hnone : Note.samples [] = Sample.sessions (k - k) := by
    rw [Nat.sub_self]
    rfl
  exact alone_ends (going_onward N) (.intro hl (Nat.le_refl k) hk hs hnone) (by omega)

end Worded.Notes

end BusyWait
