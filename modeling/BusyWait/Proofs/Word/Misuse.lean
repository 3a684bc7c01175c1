import BusyWait.LockStep.Words
import BusyWait.Proofs.Solo
import BusyWait.Proofs.Word.Counts
import Mathlib.Algebra.GroupWithZero.Nat
import Mathlib.Algebra.Ring.Int.Defs

/-
  BusyWait.Proofs.Word.Misuse — a word under operations that do not belong together.

  Readers may leave that have not entered, and writers that have not blocked; each breaks
  off only after it has changed the word, and the next operation goes on from there. The
  low thirty bits count nevertheless, modulo 2^30: a leave at zero borrows from the
  writer's bit, and where that is clear from bit thirty-one, and gives back nothing to
  either (`bits_leave`). An entry never carries.

  - `change`: what one operation does to the bits of any word, in order or not.
  - `entering`, `returns_drain_iff`: on which words a reader gets in, and a writer.
  - `word_survives_misuse`: what a run of operations makes of a word.
-/

namespace BusyWait

namespace Word

/-- Bit `i`. -/
def bit (w : Word) (i : Nat) : Bool := w.bits.toNat.testBit i

/-- The low thirty bits. -/
def low (w : Word) : Nat := w.bits.toNat % 2 ^ 30

theorem bit_thirty (w : Word) : w.bit 30 = decide (w.bits.toNat / 0x40000000 % 2 = 1) :=
  Nat.testBit_eq_decide_div_mod_eq

theorem bit_top (w : Word) : w.bit 31 = decide (w.bits.toNat / 0x80000000 % 2 = 1) :=
  Nat.testBit_eq_decide_div_mod_eq

theorem writerPending_eq (w : Word) : w.writerPending = w.bit 30 := by
  rw [Bool.eq_iff_iff, writerPending_iff, bit_thirty, decide_eq_true_eq]

theorem toNat_readers_eq (w : Word) : w.readers.toNat = w.low := toNat_readers w

theorem readers_eq_zero (w : Word) : w.readers = 0 ↔ w.low = 0 := by
  rw [← UInt32.toNat_inj, toNat_readers_eq]
  rfl

theorem readers_lt_max (w : Word) : w.readers < maxReaders ↔ w.low ≠ 2 ^ 30 - 1 := by
  have hlow : w.low < 2 ^ 30 := Nat.mod_lt _ (by decide)
  rw [UInt32.lt_iff_toNat_lt, toNat_readers_eq, toNat_maxReaders]
  omega

/-! ## The bits after one access -/

/-- One more is counted, and nothing is carried. -/
theorem bits_enter {w : Word} (h : w.low ≠ 2 ^ 30 - 1) :
    w.enter.bits.toNat = w.bits.toNat + 1 ∧ w.enter.low = w.low + 1 ∧ w.enter.bit 30 = w.bit 30 ∧
      w.enter.bit 31 = w.bit 31 := by
  have hw := w.bits.toNat_lt
  unfold low at h ⊢
  simp only [bit_thirty, bit_top, toNat_enter, decide_eq_decide]
  omega

/-- A leave at zero borrows from the writer's bit, and through it from the one above. -/
theorem bits_leave (w : Word) :
    (w.leave.low : Int) = ((w.low : Int) - 1) % 2 ^ 30 ∧ (w.leave.bit 30 ≠ w.bit 30 ↔ w.low = 0) ∧
      (w.leave.bit 31 ≠ w.bit 31 ↔ w.low = 0 ∧ w.bit 30 = false) := by
  have hw := w.bits.toNat_lt
  unfold low
  simp only [bit_thirty, bit_top, toNat_leave, ne_eq, decide_eq_decide, decide_eq_false_iff_not]
  omega

theorem bits_raise (w : Word) : w.raise.low = w.low ∧ w.raise.bit 30 = true ∧ w.raise.bit 31 = w.bit 31 := by
  have hw := w.bits.toNat_lt
  unfold low
  simp only [bit_thirty, bit_top, toNat_raise, decide_eq_true_eq, decide_eq_decide]
  split <;> omega

theorem bits_lower (w : Word) : w.lower.low = w.low ∧ w.lower.bit 30 = false ∧ w.lower.bit 31 = w.bit 31 := by
  have hw := w.bits.toNat_lt
  unfold low
  simp only [bit_thirty, bit_top, toNat_lower, decide_eq_false_iff_not, decide_eq_decide]
  split <;> omega

/-- A word is known by its three parts. -/
theorem eq_owned_iff_bits (w : Word) : w = owned ↔ w.low = 0 ∧ w.bit 30 = true ∧ w.bit 31 = false := by
  have hw := w.bits.toNat_lt
  rw [eq_owned_iff]
  unfold low
  simp only [bit_thirty, bit_top, decide_eq_true_eq, decide_eq_false_iff_not]
  omega

theorem raise_eq_owned_iff (w : Word) : w.raise = owned ↔ w.low = 0 ∧ w.bit 31 = false := by
  obtain ⟨hlow, hbit, htop⟩ := bits_raise w
  rw [eq_owned_iff_bits, hlow, hbit, htop]
  simp

end Word

namespace LockStep.Words

/-! ## One operation -/

section
variable (w : Word)

/-- What a reader finds, with nobody else acting. -/
theorem attempt_eq : attempt w =
    if w.bit 30 then ((w, []), .done (.ok false))
    else if w.low = 2 ^ 30 - 1 then ((w, []), .done (.error .tooManyReaders))
    else ((w.enter, []), .done (.ok true)) := by
  have hlook : watched (w, []) .look = ((w, []), Entry.judge w 0) := rfl
  have hswap : watched (w, []) (.swap w 0) = ((w.enter, []), .done (.ok true)) := by
    simp [watched, Entry.step, Entry.contended]
  unfold attempt solitary
  rw [← Word.writerPending_eq]
  cases hp : w.writerPending with
  | true => exact alone_succ_done rfl (by simp [hlook, Entry.judge, hp])
  | false =>
    by_cases hm : w.low = 2 ^ 30 - 1
    · have hfull : ¬w.readers < Word.maxReaders := fun hlt => (w.readers_lt_max.mp hlt) hm
      rw [if_neg Bool.false_ne_true, if_pos hm]
      exact alone_succ_done rfl (by simp [hlook, Entry.judge, hp, hfull])
    · rw [if_neg Bool.false_ne_true, if_neg hm]
      have hgo : watched (w, []) .look = ((w, []), .more (.swap w 0)) := by
        simp [hlook, Entry.judge, hp, w.readers_lt_max.mpr hm]
      rw [alone_succ_more rfl hgo]
      exact alone_succ_done rfl hswap

theorem step_enter : step w .enter =
    if w.bit 30 then (w, .flag false)
    else if w.low = 2 ^ 30 - 1 then (w, .fault .tooManyReaders)
    else (w.enter, .flag true) := by
  simp only [step, attempt_eq]
  split
  · rfl
  · split <;> rfl

theorem step_enterWatched : step w .enterWatched =
    if w.bit 30 then (w, .attempt false [])
    else if w.low = 2 ^ 30 - 1 then (w, .fault .tooManyReaders)
    else (w.enter, .attempt true []) := by
  simp only [step, attempt_eq]
  split
  · rfl
  · split <;> rfl

theorem step_leave : step w .leave = (w.leave, if w.low = 0 then .fault .noReaders else .done) := by
  by_cases h : w.low = 0
  · simp [step, Word.release, w.readers_eq_zero.mpr h, h]
  · simp [step, Word.release, mt w.readers_eq_zero.mp h, h]

theorem step_unblock : step w .unblock = (w.lower, if w.bit 30 then .done else .fault .notBlocked) := by
  cases h : w.bit 30 <;> simp [step, Word.unblock, w.writerPending_eq, h]

theorem step_request : step w .request = (w.raise, .count 0) := by
  have hlook : Request.look.step w = (w, .more (.swap w 0)) := rfl
  have hswap : (Request.swap w 0).step w = (w.raise, .done (.ok 0)) := by simp [Request.step]
  simp only [step, solitary]
  rw [alone_succ_more rfl hlook, alone_succ_done rfl hswap]
  rfl

theorem step_claim : step w .claim = (w.raise, .flag (!w.bit 30)) := by
  simp [step, Word.claim, w.writerPending_eq]

/-! ## Operations that may wait -/

/-- With nobody else acting, and for as long as it takes, the operation returns and leaves `w'`. -/
def Returns {τ ρ : Type} (step : Word → τ → Word × Progress τ (Except Fault ρ)) (w : Word) (t : τ) (w' : Word) : Prop :=
  ∃ n r, alone step (fun _ _ => false) n w t = (w', .done (.ok r))

/-- Nobody changes the word that a poll has found wrong, so all polls find it so. -/
theorem not_returns_of_polls {τ ρ : Type} {step : Word → τ → Word × Progress τ (Except Fault ρ)} {w w' : Word} {t : τ}
    {Q : τ → Prop} (ht : Q t)
    (hpoll : ∀ t, Q t → (step w t).1 = w ∧ ((∃ t', (step w t).2 = .more t' ∧ Q t') ∨
      ∃ f, (step w t).2 = .done (.error f))) : ¬Returns step w t w' := by
  rintro ⟨n, r, hr⟩
  have hkeeps : (alone step (fun _ _ => false) n w t).1 = w ∧ _ := alone_keeps (I := (· = w))
    (P := fun p => match p with | .more t => Q t | .done r => ∃ f, r = .error f) ?_ rfl ht
  · rw [hr] at hkeeps
    obtain ⟨f, hf⟩ := hkeeps.2
    cases hf
  · rintro s t rfl ht
    obtain ⟨hw, ⟨t', ht', hp⟩ | ⟨f, hf⟩⟩ := hpoll t ht
    · rw [ht']
      exact ⟨hw, hp⟩
    · rw [hf]
      exact ⟨hw, f, rfl⟩

/-- One end is the end. -/
theorem returns_iff_of_ends {τ ρ : Type} {step : Word → τ → Word × Progress τ (Except Fault ρ)} {w v : Word} {t : τ}
    {n : Nat} {r : ρ} (h : alone step (fun _ _ => false) n w t = (v, .done (.ok r))) (w' : Word) :
    Returns step w t w' ↔ w' = v := by
  constructor
  · rintro ⟨m, r', hr⟩
    have hlong := alone_mono (m := n) hr
    rw [Nat.add_comm, alone_mono h] at hlong
    cases hlong
    rfl
  · rintro rfl
    exact ⟨n, r, h⟩

/-- A writer that finds anything but its bit polls until its count of polls is full. -/
theorem not_returns_drain (h : w ≠ .owned) (d : Drain) (w' : Word) : ¬Returns Drain.step w d w' := by
  refine not_returns_of_polls (Q := fun _ => True) trivial ?_
  rintro d -
  rcases Drain.step_busy h d with ⟨d', hd⟩ | hd
  · exact ⟨by rw [hd], .inl ⟨d', by rw [hd], trivial⟩⟩
  · exact ⟨by rw [hd], .inr ⟨.sumOverflow, by rw [hd]⟩⟩

theorem returns_drain_iff (w' : Word) : Returns Drain.step w ⟨0⟩ w' ↔ w = .owned ∧ w' = w := by
  by_cases hw : w = .owned
  · have hone : alone Drain.step (fun _ _ => false) 1 w ⟨0⟩ = (w, .done (.ok 0)) :=
      alone_succ_done rfl (by simp [Drain.step, hw])
    rw [returns_iff_of_ends hone, and_iff_right hw]
  · exact iff_of_false (not_returns_drain w hw _ _) fun h => hw h.1

theorem step_drain : step w .drain = if w = .owned then (w, .count 0) else (w, .refused .wouldHang) := by
  by_cases hw : w = .owned
  · subst hw
    rw [if_pos rfl]
    rfl
  · rw [if_neg hw]
    simp only [step]
    rw [alone_of_halt (by simpa [Drain.waits] using hw)]
    rfl

/-- A writer that begins has set the bit in two accesses, whoever is inside. -/
theorem session_raises (halt : Word → Session → Bool) (hr : ∀ r, halt w (.request r) = false) (n : Nat) :
    alone Session.step halt (n + 2) w .start = alone Session.step halt n w.raise (.drain 0 ⟨0⟩) := by
  have hlook : Session.step w .start = (w, .more (.request (.swap w 0))) := rfl
  have hswap : Session.step w (.request (.swap w 0)) = (w.raise, .more (.drain 0 ⟨0⟩)) := by
    simp [Session.step, Request.step]
  exact (alone_succ_more (hr _) hlook).trans (alone_succ_more (hr _) hswap)

theorem session_ends (halt : Word → Session → Bool) (hr : ∀ r, halt w (.request r) = false)
    (hd : halt .owned (.drain 0 ⟨0⟩) = false) (hw : w.raise = .owned) (n : Nat) :
    alone Session.step halt (n + 3) w .start = (.owned, .done (.ok (0, 0))) := by
  have hdrain : Session.step .owned (.drain 0 ⟨0⟩) = (.owned, .done (.ok (0, 0))) := rfl
  rw [session_raises w halt hr, hw, alone_succ_done hd hdrain]

theorem returns_block_iff (w' : Word) : Returns Session.step w .start w' ↔ w.raise = .owned ∧ w' = .owned := by
  by_cases hw : w.raise = .owned
  · rw [returns_iff_of_ends (session_ends w (fun _ _ => false) (fun _ => rfl) rfl hw 0), and_iff_right hw]
  · refine iff_of_false ?_ fun h => hw h.1
    rintro ⟨n, r, hr⟩
    have hlong := alone_mono (m := 2) hr
    rw [session_raises w _ fun _ => rfl] at hlong
    refine not_returns_of_polls (Q := fun s => ∃ f d, s = .drain f d) ⟨0, ⟨0⟩, rfl⟩ ?_ ⟨n, r, hlong⟩
    rintro s ⟨f, d, rfl⟩
    rcases Drain.step_busy hw d with ⟨d', hd⟩ | hd
    · exact ⟨by simp only [Session.step, hd], .inl ⟨.drain f d', by simp only [Session.step, hd], f, d', rfl⟩⟩
    · exact ⟨by simp only [Session.step, hd], .inr ⟨.sumOverflow, by simp only [Session.step, hd]⟩⟩

theorem step_block : step w .block =
    if w.raise = .owned then (.owned, .session 0 0) else (w, .refused .wouldHang) := by
  simp only [step]
  by_cases hw : w.raise = .owned
  · rw [if_pos hw, if_pos hw, solitary, session_ends w Session.waits (fun _ => rfl) (by decide) hw 3]
    rfl
  · rw [if_neg hw, if_neg hw]

end

/-! ## What each operation does to the bits -/

/-- The operation is to set the writer's bit. -/
def Op.raises : Op → Bool
  | .request | .claim | .block => true
  | _ => false

/-- The operation has let a reader in. -/
def Op.entered : Op → Reply → Bool
  | .enter, .flag b | .enterWatched, .attempt b _ => b
  | _, _ => false

/-- A leave that breaks off, as there was no reader. -/
def Op.Overdraws (op : Op) (w : Word) : Prop := op = .leave ∧ (step w op).2 = .fault .noReaders

/-- What an operation does to the bits of a word. -/
structure Change (w : Word) (op : Op) : Prop where
  /-- Readers that get in and leaves are counted, modulo 2^30, and nothing else is. -/
  low : ((step w op).1.low : Int) =
    ((w.low : Int) + (op.entered (step w op).2).toNat - if op = .leave then 1 else 0) % 2 ^ 30
  /-- The writer's bit changes by what is to set it, where it was clear and the operation returns; by what is to
      clear it, where it was set; and by a leave that breaks off. -/
  flag : (step w op).1.bit 30 ≠ w.bit 30 ↔
    op.raises = true ∧ w.bit 30 = false ∧ (step w op).2 ≠ .refused .wouldHang ∨
      op = .unblock ∧ w.bit 30 = true ∨ op.Overdraws w
  set : op.raises = true → (step w op).2 ≠ .refused .wouldHang → (step w op).1.bit 30 = true
  clear : op = .unblock → (step w op).1.bit 30 = false
  /-- The bit above changes only by a leave that breaks off while the writer's bit is clear. -/
  top : (step w op).1.bit 31 ≠ w.bit 31 ↔ op.Overdraws w ∧ w.bit 30 = false

theorem low_eq_mod (w : Word) : (w.low : Int) = (w.low : Int) % 2 ^ 30 := by
  have hlow : w.low < 2 ^ 30 := Nat.mod_lt _ (by decide)
  omega

/-- An operation that leaves the word as it is. -/
theorem Change.still {w : Word} {op : Op} (hw : (step w op).1 = w) (he : op.entered (step w op).2 = false)
    (hr : op.raises = true → (step w op).2 = .refused .wouldHang ∨ w.bit 30 = true) (hu : op ≠ .unblock)
    (hl : op ≠ .leave) : Change w op := by
  refine ⟨?_, ?_, ?_, fun h => absurd h hu, ?_⟩
  · rw [hw, he, if_neg hl]
    exact (low_eq_mod w).trans (by simp)
  · rw [hw]
    refine iff_of_false (fun h => h rfl) ?_
    rintro (⟨h, hb, hn⟩ | ⟨h, -⟩ | ⟨h, -⟩)
    · rcases hr h with hh | hh
      · exact hn hh
      · rw [hb] at hh
        cases hh
    · exact hu h
    · exact hl h
  · intro h hn
    rw [hw]
    exact (hr h).resolve_left hn
  · rw [hw]
    exact iff_of_false (fun h => h rfl) fun h => hl h.1.1

/-- An operation that sets the writer's bit. -/
theorem Change.raise {w : Word} {op : Op} (hw : (step w op).1 = w.raise) (he : op.entered (step w op).2 = false)
    (hr : op.raises = true) (hn : (step w op).2 ≠ .refused .wouldHang) : Change w op := by
  obtain ⟨hlow, hbit, htop⟩ := w.bits_raise
  have hl : op ≠ .leave := by
    rintro rfl
    cases hr
  have hu : op ≠ .unblock := by
    rintro rfl
    cases hr
  refine ⟨?_, ?_, ?_, fun h => absurd h hu, ?_⟩
  · rw [hw, he, if_neg hl, hlow]
    exact (low_eq_mod w).trans (by simp)
  · rw [hw, hbit]
    cases hb : w.bit 30 with
    | true =>
      refine iff_of_false (fun h => h rfl) ?_
      rintro (⟨-, h, -⟩ | ⟨h, -⟩ | ⟨h, -⟩)
      · cases h
      · exact hu h
      · exact hl h
    | false => exact iff_of_true (by decide) (.inl ⟨hr, rfl, hn⟩)
  · intro _ _
    rw [hw, hbit]
  · rw [hw, htop]
    exact iff_of_false (fun h => h rfl) fun h => hl h.1.1

/-- A reader that gets in. -/
theorem Change.enters {w : Word} {op : Op} (hw : (step w op).1 = w.enter) (he : op.entered (step w op).2 = true)
    (hr : op.raises = false) (hu : op ≠ .unblock) (hl : op ≠ .leave) (hm : w.low ≠ 2 ^ 30 - 1) : Change w op := by
  obtain ⟨-, hlow, hbit, htop⟩ := Word.bits_enter hm
  have hlt : w.enter.low < 2 ^ 30 := Nat.mod_lt _ (by decide)
  refine ⟨?_, ?_, fun h => absurd h (by simp [hr]), fun h => absurd h hu, ?_⟩
  · rw [hw, he, if_neg hl]
    simp only [Bool.toNat_true]
    omega
  · rw [hw, hbit]
    refine iff_of_false (fun h => h rfl) ?_
    rintro (⟨h, -⟩ | ⟨h, -⟩ | ⟨h, -⟩)
    · rw [hr] at h
      cases h
    · exact hu h
    · exact hl h
  · rw [hw, htop]
    exact iff_of_false (fun h => h rfl) fun h => hl h.1.1

/-- A reader on its way in, whatever it is told. -/
theorem Change.reader {w : Word} {op : Op} {yes no : Reply} (hs : step w op =
      if w.bit 30 then (w, no) else if w.low = 2 ^ 30 - 1 then (w, .fault .tooManyReaders) else (w.enter, yes))
    (hyes : op.entered yes = true) (hno : op.entered no = false) (hfault : op.entered (.fault .tooManyReaders) = false)
    (hr : op.raises = false) (hu : op ≠ .unblock) (hl : op ≠ .leave) : Change w op := by
  have hnot : op.raises = true → (step w op).2 = .refused .wouldHang ∨ w.bit 30 = true := by simp [hr]
  by_cases hb : w.bit 30 = true
  · rw [if_pos hb] at hs
    exact .still (by rw [hs]) (by rw [hs, hno]) hnot hu hl
  rw [if_neg hb] at hs
  by_cases hm : w.low = 2 ^ 30 - 1
  · rw [if_pos hm] at hs
    exact .still (by rw [hs]) (by rw [hs, hfault]) hnot hu hl
  · rw [if_neg hm] at hs
    exact .enters (by rw [hs]) (by rw [hs, hyes]) hr hu hl hm

theorem overdraws_leave (w : Word) : Op.leave.Overdraws w ↔ w.low = 0 := by
  rw [Op.Overdraws, step_leave]
  by_cases h : w.low = 0 <;> simp [h]

theorem change_leave (w : Word) : Change w .leave := by
  obtain ⟨hlow, hbit, htop⟩ := w.bits_leave
  refine ⟨?_, ?_, nofun, nofun, ?_⟩
  · rw [step_leave, if_pos rfl, hlow]
    simp [Op.entered]
  · rw [overdraws_leave, step_leave, hbit]
    simp [Op.raises]
  · rw [overdraws_leave, step_leave, htop]

theorem change_unblock (w : Word) : Change w .unblock := by
  obtain ⟨hlow, hbit, htop⟩ := w.bits_lower
  have hno : ¬Op.unblock.Overdraws w := fun h => nomatch h.1
  refine ⟨?_, ?_, nofun, fun _ => by rw [step_unblock, hbit], ?_⟩
  · rw [step_unblock, hlow]
    exact (low_eq_mod w).trans (by simp [Op.entered])
  · rw [step_unblock, hbit]
    cases w.bit 30 <;> simp [Op.raises, hno]
  · rw [step_unblock, htop]
    exact iff_of_false (fun h => h rfl) fun h => hno h.1

theorem change (w : Word) (op : Op) : Change w op := by
  cases op with
  | enter => exact .reader (step_enter w) rfl rfl rfl rfl nofun nofun
  | enterWatched => exact .reader (step_enterWatched w) rfl rfl rfl rfl nofun nofun
  | leave => exact change_leave w
  | unblock => exact change_unblock w
  | request => exact .raise (by rw [step_request]) rfl rfl (by rw [step_request]; nofun)
  | claim => exact .raise (by rw [step_claim]) rfl rfl (by rw [step_claim]; nofun)
  | drain =>
    have hs : (step w .drain).1 = w := by rw [step_drain]; split <;> rfl
    exact .still hs rfl nofun nofun nofun
  | block =>
    by_cases hw : w.raise = .owned
    · have hs : step w .block = (.owned, .session 0 0) := by rw [step_block, if_pos hw]
      exact .raise (by rw [hs, hw]) rfl rfl (by rw [hs]; nofun)
    · have hs : step w .block = (w, .refused .wouldHang) := by rw [step_block, if_neg hw]
      exact .still (by rw [hs]) rfl (fun _ => .inl (by rw [hs])) nofun nofun
  | debug => exact .still rfl rfl nofun nofun nofun
  | unknown => exact .still rfl rfl nofun nofun nofun

/-! ## Runs -/

/-- The word after these operations. -/
def after (w : Word) (ops : List Op) : Word := ops.foldl (fun w op => (step w op).1) w

/-- How many readers these operations have let in. -/
def entries (w : Word) : List Op → Nat
  | [] => 0
  | op :: ops => (op.entered (step w op).2).toNat + entries (step w op).1 ops

/-- The words that a run reports are those after each of its operations. -/
theorem run_after (w : Word) (ops : List Op) (i : Nat) (hi : i < ops.length) :
    ((run w ops)[i]?).map (·.2) = some (after w (ops.take (i + 1))) := by
  induction ops generalizing w i with
  | nil => cases hi
  | cons op ops ih =>
    cases i with
    | zero => rfl
    | succ i => exact ih _ i (Nat.lt_of_succ_lt_succ hi)

/-- Readers that got in, less leaves, are what is counted. -/
theorem low_after (w : Word) (ops : List Op) :
    ((after w ops).low : Int) = ((w.low : Int) + entries w ops - ops.count .leave) % 2 ^ 30 := by
  induction ops generalizing w with
  | nil => exact (low_eq_mod w).trans (by simp [entries])
  | cons op ops ih =>
    have hone := (change w op).low
    have hcount : (op :: ops).count .leave = ops.count .leave + if op = .leave then 1 else 0 := by
      rw [List.count_cons]
      by_cases h : op = .leave <;> simp [h]
    show ((after (step w op).1 ops).low : Int) = _
    rw [ih, hone, hcount, entries]
    by_cases h : op = .leave
    · simp only [if_pos h]
      omega
    · simp only [if_neg h]
      omega

/-- A reader on its way in, with nobody else acting. -/
structure Entering (w : Word) : Prop where
  /-- It is turned away just where the writer's bit is set, and breaks off just where it is clear and the count full. -/
  refused : (step w .enter).2 = .flag false ↔ w.bit 30 = true
  full : (step w .enter).2 = .fault .tooManyReaders ↔ w.bit 30 = false ∧ w.low = 2 ^ 30 - 1
  outside : (step w .enter).2 ≠ .flag true → (step w .enter).1 = w
  /-- Otherwise it is counted, and nothing is carried. -/
  inside : w.bit 30 = false → w.low ≠ 2 ^ 30 - 1 → (step w .enter).2 = .flag true ∧
    (step w .enter).1.bits.toNat = w.bits.toNat + 1 ∧ (step w .enter).1.bit 30 = w.bit 30 ∧
      (step w .enter).1.bit 31 = w.bit 31
  /-- One that is watched does the same, and has no failed swap to tell of. -/
  watched : (step w .enterWatched).1 = (step w .enter).1 ∧
    ∀ b, (step w .enterWatched).2 = .attempt b [] ↔ (step w .enter).2 = .flag b

theorem entering (w : Word) : Entering w := by
  cases hb : w.bit 30 with
  | true =>
    have hs : step w .enter = (w, .flag false) := by rw [step_enter, if_pos hb]
    have hs' : step w .enterWatched = (w, .attempt false []) := by rw [step_enterWatched, if_pos hb]
    refine ⟨iff_of_true (by rw [hs]) hb, iff_of_false ?_ ?_, fun _ => by rw [hs], fun h => ?_, by simp [hs, hs']⟩
    · rw [hs]
      nofun
    · exact fun h => Bool.false_ne_true (h.1.symm.trans hb)
    · exact absurd (h.symm.trans hb) Bool.false_ne_true
  | false =>
    have hb' : ¬w.bit 30 = true := by simp [hb]
    by_cases hm : w.low = 2 ^ 30 - 1
    · have hs : step w .enter = (w, .fault .tooManyReaders) := by rw [step_enter, if_neg hb', if_pos hm]
      have hs' : step w .enterWatched = (w, .fault .tooManyReaders) := by
        rw [step_enterWatched, if_neg hb', if_pos hm]
      refine ⟨iff_of_false ?_ hb', iff_of_true (by rw [hs]) ⟨hb, hm⟩, fun _ => by rw [hs], fun _ h => absurd hm h,
        by simp [hs, hs']⟩
      rw [hs]
      nofun
    · have hs : step w .enter = (w.enter, .flag true) := by rw [step_enter, if_neg hb', if_neg hm]
      have hs' : step w .enterWatched = (w.enter, .attempt true []) := by
        rw [step_enterWatched, if_neg hb', if_neg hm]
      obtain ⟨hbits, -, hbit, htop⟩ := Word.bits_enter hm
      refine ⟨iff_of_false ?_ hb', iff_of_false ?_ fun h => hm h.2, fun h => absurd (by rw [hs]) h, fun _ _ => ?_,
        by simp [hs, hs']⟩
      · rw [hs]
        nofun
      · rw [hs]
        nofun
      · rw [hs]
        exact ⟨rfl, hbits, hbit, htop⟩

/-- What a run has made of a word that had no readers, and what may come next. -/
structure Told (w : Word) (ops : List Op) : Prop where
  /-- The words that the run reports are those after each of its operations. -/
  reported : ∀ i < ops.length, ((run w ops)[i]?).map (·.2) = some (after w (ops.take (i + 1)))
  /-- What is counted is the readers that got in less the leaves, modulo 2^30. -/
  low : ((after w ops).low : Int) = ((entries w ops : Int) - ops.count .leave) % 2 ^ 30
  change : ∀ op, Change (after w ops) op
  entering : Entering (after w ops)
  /-- A writer that waits for the readers, with nobody else acting, returns just where the word is exactly its bit. -/
  drains : ∀ w', Returns Drain.step (after w ops) ⟨0⟩ w' ↔
    ((after w ops).low = 0 ∧ (after w ops).bit 30 = true ∧ (after w ops).bit 31 = false) ∧ w' = after w ops
  /-- A whole block returns just where the run does not decline it, and leaves what the run has it leave. -/
  blocks : ∀ w', Returns Session.step (after w ops) .start w' ↔
    (step (after w ops) .block).2 ≠ .refused .wouldHang ∧ w' = (step (after w ops) .block).1

theorem told {w : Word} (hw : w.low = 0) (ops : List Op) : Told w ops := by
  refine ⟨run_after w ops, ?_, change _, entering _, ?_, ?_⟩
  · rw [low_after, hw]
    simp
  · intro w'
    rw [returns_drain_iff, Word.eq_owned_iff_bits]
  · intro w'
    rw [returns_block_iff, step_block]
    by_cases h : (after w ops).raise = .owned <;> simp [h]

/-- Whatever is done to a word that was free, or claimed, and whatever breaks off on the way. -/
theorem word_survives_misuse (ops : List Op) : Told .free ops ∧ Told .owned ops :=
  ⟨told rfl ops, told rfl ops⟩

/-- A leave too many makes the word look full and blocked, and clearing the bit makes it full of readers. -/
example : let w := after .free [.leave, .unblock]
    w.bits = 0xBFFFFFFF ∧ (run w [.enter]).map (·.2) = [w] := by decide

end LockStep.Words

end BusyWait
