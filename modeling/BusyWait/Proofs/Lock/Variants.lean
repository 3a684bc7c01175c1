import BusyWait.Proofs.Lock.Accounts
import BusyWait.Proofs.Lock.Mirror

/-
  BusyWait.Proofs.Lock.Variants — which locks can stand in for which.

  What an operation of a lock of one word comes to depends on the word only
  (`Worded.Single`), be its readers where they should or not. So the plain lock, the
  patient one and the striped one of one stripe are mirrors of each other, without any
  condition (`Worded.Single.mirror`).

  The counter and its flag are a mirror of the plain lock as long as operations keep to
  the rules (`Face.Single.mirror`): a release of nobody, or an unblock of a lock that is not
  blocked, does something else to a word than to a counter.

  - `variants_interchangeable`: the locks of one word, under any operations.
  - `counted_agrees`: the counter and its flag, under fair ones.
-/

namespace BusyWait

/-! ## Locks of one word -/

/-- A lock of one word, which is all that is seen of it. -/
structure Worded.Single {L T : Type} [Lock L T] (W : Worded L T) : Prop where
  one : W.size = 1
  notes : W.Notes
  readers : ∀ {l : L}, W.Of l → Lock.readers l = .ok (W.word l 0).readers
  isBlocked : ∀ {l : L}, W.Of l → Lock.isBlocked l = (W.word l 0).writerPending
  readersOn : ∀ {l : L}, W.Of l → ∀ i, Lock.readersOn l i = (W.word l 0).readers
  crowded : ∀ {l : L}, W.Of l → ∀ n, Lock.crowded l n = decide (n < (W.word l 0).readers)

namespace RetryLock

theorem single : worded.Single where
  one := rfl
  notes := notes
  readers _ := rfl
  isBlocked _ := rfl
  readersOn _ _ := rfl
  crowded _ _ := rfl

end RetryLock

namespace PatientLock

theorem single (policy : Policy) : (worded policy).Single where
  one := rfl
  notes := notes policy
  readers _ := rfl
  isBlocked _ := rfl
  readersOn _ _ := rfl
  crowded _ _ := rfl

end PatientLock

namespace StripedLock

theorem eq_one {l : StripedLock} (h : l.words.size = 1) : l = one (l.word 0) := by
  obtain ⟨ws, hpos⟩ := l
  obtain ⟨w, rfl⟩ := Array.size_eq_one_iff.mp h
  rfl

theorem readers_one (w : Word) : Lock.readers (one w) = .ok w.readers := by
  have hlt : (0 : UInt32).toNat + w.readers.toNat < 0x100000000 := by
    have := w.readers.toNat_lt
    simp only [UInt32.toNat_zero]
    omega
  show addReaders 0 [w] = _
  rw [addReaders, if_pos hlt, UInt32.zero_add]
  rfl

theorem isBlocked_one (w : Word) : Lock.isBlocked (one w) = w.writerPending := by simp [Lock.isBlocked, one]

theorem crowded_one (w : Word) (n : UInt32) : Lock.crowded (one w) n = decide (n < w.readers) := by
  simp [Lock.crowded, one]

theorem single : (worded 0).Single where
  one := rfl
  notes := notes 0
  readers {l} h := by
    rw [eq_one h]
    exact readers_one _
  isBlocked {l} h := by
    rw [eq_one h]
    exact isBlocked_one _
  readersOn {l} h i := by
    rw [eq_one h]
    show ((one (l.word 0)).word ((one (l.word 0)).stripeOf i)).readers = _
    rw [stripeOf_one]
    rfl
  crowded {l} h n := by
    rw [eq_one h]
    exact crowded_one _ n

end StripedLock

namespace Worded.Single

variable {L T L' T' : Type} [Lock L T] [Lock L' T'] {W : Worded L T} {W' : Worded L' T'}

/-- An operation comes to a verdict, or has to wait, with this word and these samples. -/
structure Comes (W : Worded L T) (e : (L × List Note) × Progress T Verdict) (w : Word) (v : Option Verdict)
    (xs : List Sample) : Prop where
  of : W.Of e.1.1
  word : W.word e.1.1 0 = w
  samples : Note.samples e.1.2 = xs
  ends : e.2 = match v with
    | some v => .done v
    | none => .more (W.blocking 0 (.drain 0 ⟨0⟩))

section
variable (S : W.Single) {l : L} (hl : W.Of l)
include S

theorem slot_eq (i : Index) : i.slot W.size = 0 := by
  rw [S.one]
  exact Nat.mod_one _

include hl

omit S in
theorem comes_put {ns : List Note} {w : Word} {v : Verdict} {xs : List Sample} (hns : Note.samples ns = xs) :
    Comes W ((W.put l 0 w, ns), .done v) w (some v) xs := by
  refine ⟨W.of_put hl 0 w, ?_, hns, rfl⟩
  rw [W.word_put hl w W.pos W.pos, if_pos rfl]

theorem enter (i : Index) : Comes W (Lock.run l (Lock.enter l i)) (W.word l 0).tryEnter.1
    (some (.ofEntry (W.word l 0).tryEnter.2)) (Sample.ofEntry (W.word l 0).tryEnter.2) := by
  obtain ⟨ns, hrun, hns⟩ := S.notes.run_enter hl i
  rw [S.slot_eq i] at hrun hns
  rw [hrun]
  exact comes_put hl hns

theorem leave (i : Index) : Comes W (Lock.run l (Lock.leave l i)) (W.word l 0).release.1
    (some (.ofExcept (W.word l 0).release.2)) [] := by
  obtain ⟨ns, hrun, hns⟩ := S.notes.run_leave hl i
  rw [S.slot_eq i] at hrun
  rw [hrun]
  exact comes_put hl hns

theorem unblock : Comes W (Lock.run l (Lock.unblock l)) (W.word l 0).unblock.1
    (some (.ofExcept (W.word l 0).unblock.2)) [] := by
  have hone := S.one
  have hbound := W.bound hl
  have hquiet := S.notes.unblocking l 0
  have hwaits := W.waits_unblocking l 0
  rw [← W.unblock l] at hquiet hwaits
  rcases hw : (W.word l 0).unblock with ⟨w, f | _⟩
  · obtain ⟨ns, hs⟩ := S.notes.breaking hl W.pos hw
    rw [← W.unblock l] at hs
    rw [hs] at hquiet
    have hlast : Lock.Gets 1 (l, []) (Lock.unblock l) _ := .last hwaits (Lock.noted_eq hs [])
    rw [Lock.run, hlast.alone_done (by omega)]
    exact comes_put hl hquiet
  · obtain ⟨ns, hs⟩ := W.step_unblocking hl W.pos hw
    rw [← W.unblock l, if_neg (by omega)] at hs
    rw [hs] at hquiet
    have hlast : Lock.Gets 1 (l, []) (Lock.unblock l) _ := .last hwaits (Lock.noted_eq hs [])
    rw [Lock.run, hlast.alone_done (by omega)]
    exact comes_put hl hquiet

omit hl in
/-- What is recorded of a writer that is through, or has to wait. -/
theorem samples_gone {e : (L × List Note) × Progress T Verdict} (h : Worded.Notes.Gone W 0 e) :
    (e.2 = .done .finished → Note.samples e.1.2 = Sample.session) ∧
      ∀ t, e.2 = .more t → Note.samples e.1.2 = [] := by
  have hone := S.one
  cases h with
  | @waits _ _ m _ _ hm hns =>
    obtain rfl : m = 0 := by omega
    exact ⟨nofun, fun _ _ => hns⟩
  | through _ hns =>
    rw [hone] at hns
    exact ⟨fun _ => hns, nofun⟩

/-- A writer that waits gets through where the word is its own. -/
theorem wait : Comes W (Lock.run l (W.blocking 0 (.drain 0 ⟨0⟩))) (W.word l 0)
    (if W.word l 0 = .owned then some .finished else none) (if W.word l 0 = .owned then Sample.session else []) := by
  have hgone := S.samples_gone (S.notes.run_block hl W.pos .drain)
  have hbound := W.bound hl
  have hone := S.one
  by_cases hw : W.word l 0 = .owned
  · obtain ⟨ns, h⟩ := W.gets_on [] hl W.pos hw
    rw [if_neg (by omega)] at h
    have hrun : Lock.run l (W.blocking 0 (.drain 0 ⟨0⟩)) = ((l, ns), .done .finished) := h.alone_done (by omega)
    rw [hrun] at hgone ⊢
    rw [if_pos hw, if_pos hw]
    exact ⟨hl, rfl, hgone.1 rfl, rfl⟩
  · have hwait : Lock.waits l (W.blocking 0 (.drain 0 ⟨0⟩)) = true := by
      rw [W.waits_blocking l 0 _ W.pos]
      exact bne_iff_ne.mpr hw
    have hrun : Lock.run l (W.blocking 0 (.drain 0 ⟨0⟩)) = ((l, []), .more (W.blocking 0 (.drain 0 ⟨0⟩))) :=
      alone_of_halt hwait
    rw [hrun, if_neg hw, if_neg hw]
    exact ⟨hl, rfl, rfl, rfl⟩

theorem block : Comes W (Lock.run l (Lock.block l)) (W.word l 0).raise
    (if (W.word l 0).raise = .owned then some .finished else none)
    (if (W.word l 0).raise = .owned then Sample.session else []) := by
  have hgone := S.samples_gone (S.notes.run_block hl W.pos .start)
  have hbound := W.bound hl
  have hone := S.one
  obtain ⟨ns₁, h₁⟩ := W.gets_raise [] hl W.pos
  have hof := W.of_put hl 0 (W.word l 0).raise
  have hword : W.word (W.put l 0 (W.word l 0).raise) 0 = (W.word l 0).raise := by
    rw [W.word_put hl _ W.pos W.pos, if_pos rfl]
  rw [W.block]
  by_cases hw : (W.word l 0).raise = .owned
  · obtain ⟨ns₂, h₂⟩ := W.gets_on ns₁ hof W.pos (hword.trans hw)
    rw [if_neg (by omega)] at h₂
    have hrun : Lock.run l (W.blocking 0 .start) = ((_, ns₂), .done .finished) := (h₁.trans h₂).alone_done (by omega)
    rw [hrun] at hgone ⊢
    rw [if_pos hw, if_pos hw]
    exact ⟨hof, hword, hgone.1 rfl, rfl⟩
  · have hwait : Lock.waits (W.put l 0 (W.word l 0).raise) (W.blocking 0 (.drain 0 ⟨0⟩)) = true := by
      rw [W.waits_blocking _ 0 _ W.pos, hword]
      exact bne_iff_ne.mpr hw
    have hrun : Lock.run l (W.blocking 0 .start) = ((_, ns₁), .more (W.blocking 0 (.drain 0 ⟨0⟩))) :=
      h₁.alone_halt hwait (by omega)
    rw [hrun] at hgone ⊢
    rw [if_neg hw, if_neg hw]
    exact ⟨hof, hword, hgone.2 _ rfl, rfl⟩

end

/-! ## They are mirrors of each other -/

/-- The same word. -/
def likeness (W : Worded L T) (W' : Worded L' T') : Likeness L T L' T' where
  Like l l' := W.Of l ∧ W'.Of l' ∧ W'.word l' 0 = W.word l 0
  Paused t t' := t = W.blocking 0 (.drain 0 ⟨0⟩) ∧ t' = W'.blocking 0 (.drain 0 ⟨0⟩)
  Counts := True
  Fails _ := True

theorem Comes.same {e : (L × List Note) × Progress T Verdict} {e' : (L' × List Note) × Progress T' Verdict}
    {w : Word} {v : Option Verdict} {xs : List Sample} (h : Comes W e w v xs) (h' : Comes W' e' w v xs) :
    (likeness W W').Same e e' := by
  refine ⟨⟨h.of, h'.of, h'.word.trans h.word.symm⟩, fun _ => h'.samples.trans h.samples.symm, ?_⟩
  rw [h.ends, h'.ends]
  cases v with
  | none => exact .more ⟨rfl, rfl⟩
  | some v => exact .done v fun _ _ => trivial

/-- Under any operation. -/
def mirror (S : W.Single) (S' : W'.Single) : Mirror L T L' T' where
  toLikeness := likeness W W'
  Room _ _ := True
  Held _ _ := True
  Free _ _ := True
  Raised _ := True
  readers h := ⟨_, S.readers h.1, by rw [S'.readers h.2.1, h.2.2]⟩
  isBlocked h := by rw [S'.isBlocked h.2.1, S.isBlocked h.1, h.2.2]
  readersOn h i i' := by rw [S'.readersOn h.2.1, S.readersOn h.1, h.2.2]
  crowded h n := by rw [S'.crowded h.2.1, S.crowded h.1, h.2.2]
  enter h _ _ i i' := ⟨(S.enter h.1 i).same (h.2.2 ▸ S'.enter h.2.1 i'), trivial, fun _ => trivial⟩
  leave h _ _ i i' := ⟨(S.leave h.1 i).same (h.2.2 ▸ S'.leave h.2.1 i'), trivial, fun _ => trivial⟩
  block h := ⟨(S.block h.1).same (h.2.2 ▸ S'.block h.2.1), trivial⟩
  wait h _ _ _ ht := by
    obtain ⟨rfl, rfl⟩ := ht
    exact ⟨(S.wait h.1).same (h.2.2 ▸ S'.wait h.2.1), trivial⟩
  unblock h _ _ := ⟨(S.unblock h.1).same (h.2.2 ▸ S'.unblock h.2.1), fun _ => trivial⟩

end Worded.Single

/-! ## Locks of one stripe -/

/-- A lock of one stripe, which is all that is seen of it. -/
structure Face.Single {L T : Type} [Lock L T] (F : Face L T) : Prop where
  one : F.size = 1
  readers : ∀ l : L, ∃ n, Lock.readers l = .ok n ∧ n.toNat = F.readers l 0
  isBlocked : ∀ l : L, Lock.isBlocked l = F.bit l 0
  readersOn : ∀ (l : L) i, (Lock.readersOn l i).toNat = F.readers l 0
  crowded : ∀ (l : L) n, Lock.crowded l n = decide (n.toNat < F.readers l 0)

theorem RetryLock.single_face : worded.face.Single where
  one := rfl
  readers _ := ⟨_, rfl, rfl⟩
  isBlocked _ := rfl
  readersOn _ _ := rfl
  crowded _ _ := decide_eq_decide.mpr UInt32.lt_iff_toNat_lt

theorem CountedLock.single_face : face.Single where
  one := rfl
  readers _ := ⟨_, rfl, rfl⟩
  isBlocked _ := rfl
  readersOn _ _ := rfl
  crowded _ _ := decide_eq_decide.mpr UInt32.lt_iff_toNat_lt

namespace Face.Single

variable {L T L' T' : Type} [Lock L T] [Lock L' T'] {F : Face L T} {F' : Face L' T'}

theorem slot_eq (S : F.Single) (i : Index) : i.slot F.size = 0 := by
  rw [S.one]
  exact Nat.mod_one _

/-- As many readers and the same bit; no faults come up. -/
def likeness (F : Face L T) (F' : Face L' T') : Likeness L T L' T' where
  Like l l' := F.Sane l ∧ F'.Sane l' ∧ F'.readers l' 0 = F.readers l 0 ∧ F'.bit l' 0 = F.bit l 0
  Paused t t' := t = F.paused 0 ∧ t' = F'.paused 0
  Counts := False
  Fails _ := False

section
variable {l l₁ : L} {l' l₁' : L'}

theorem same_done {v : Verdict} (hv : ∀ f, v ≠ .failed f) {ns ns' : List Note}
    (h : (likeness F F').Like l₁ l₁') : (likeness F F').Same ((l₁, ns), .done v) ((l₁', ns'), .done v) :=
  ⟨h, nofun, .done v fun f hf => absurd hf (hv f)⟩

theorem same_more {ns ns' : List Note} (h : (likeness F F').Like l₁ l₁') :
    (likeness F F').Same ((l₁, ns), .more (F.paused 0)) ((l₁', ns'), .more (F'.paused 0)) :=
  ⟨h, nofun, .more ⟨rfl, rfl⟩⟩

variable (S : F.Single) (S' : F'.Single) (h : (likeness F F').Like l l')
include S S' h

theorem enter (hlimit : F.limit ≤ F'.limit) {n : Nat}
    (hr : ∀ m < n + 1, F.bit l 0 = true ∨ F.readers l 0 + m < F.limit) (i i' : Index) :
    (likeness F F').Same (Lock.run l (Lock.enter l i)) (Lock.run l' (Lock.enter l' i')) ∧
      (∀ m < n, F.bit (Lock.run l (Lock.enter l i)).1.1 0 = true ∨
        F.readers (Lock.run l (Lock.enter l i)).1.1 0 + m < F.limit) ∧
      F.bit (Lock.run l (Lock.enter l i)).1.1 0 = F.bit l 0 := by
  obtain ⟨hs, hs', hreaders, hbit⟩ := h
  have hi := S.slot_eq i
  have hi' := S'.slot_eq i'
  by_cases hb : F.bit l 0 = true
  · obtain ⟨ns, hrun⟩ := F.refuses hs i (by rw [hi]; exact hb)
    obtain ⟨ns', hrun'⟩ := F'.refuses hs' i' (by rw [hi', hbit]; exact hb)
    rw [hrun, hrun']
    exact ⟨same_done (by nofun) ⟨hs, hs', hreaders, hbit⟩, fun _ _ => .inl hb, rfl⟩
  · have hclear := Bool.eq_false_iff.mpr hb
    have hlt := (hr 0 (Nat.succ_pos n)).resolve_left hb
    obtain ⟨l₁, ns, hrun, hs₁, hl⟩ := F.enters hs i (by rw [hi]; exact hclear) (by rw [hi]; exact hlt)
    obtain ⟨l₁', ns', hrun', hs₁', hl'⟩ := F'.enters hs' i' (by rw [hi', hbit]; exact hclear)
      (by rw [hi', hreaders]; exact Nat.lt_of_lt_of_le hlt hlimit)
    obtain ⟨hread, hsame⟩ := hl 0 F.pos
    obtain ⟨hread', hsame'⟩ := hl' 0 F'.pos
    rw [hi, if_pos rfl] at hread
    rw [hi', if_pos rfl] at hread'
    rw [hrun, hrun']
    refine ⟨same_done (by nofun) ⟨hs₁, hs₁', by omega, by rw [hsame', hsame, hbit]⟩, ?_, hsame⟩
    intro m hm
    right
    have := (hr (m + 1) (by omega)).resolve_left hb
    show F.readers l₁ 0 + m < F.limit
    omega

theorem leave {n : Nat} (hr : n + 1 ≤ F.readers l 0) (i i' : Index) :
    (likeness F F').Same (Lock.run l (Lock.leave l i)) (Lock.run l' (Lock.leave l' i')) ∧
      n ≤ F.readers (Lock.run l (Lock.leave l i)).1.1 0 ∧
      F.bit (Lock.run l (Lock.leave l i)).1.1 0 = F.bit l 0 := by
  obtain ⟨hs, hs', hreaders, hbit⟩ := h
  have hi := S.slot_eq i
  have hi' := S'.slot_eq i'
  obtain ⟨l₁, ns, hrun, hs₁, hl⟩ := F.leaves hs i (by rw [hi]; omega)
  obtain ⟨l₁', ns', hrun', hs₁', hl'⟩ := F'.leaves hs' i' (by rw [hi']; omega)
  obtain ⟨hread, hsame⟩ := hl 0 F.pos
  obtain ⟨hread', hsame'⟩ := hl' 0 F'.pos
  rw [hi, if_pos rfl] at hread
  rw [hi', if_pos rfl] at hread'
  rw [hrun, hrun']
  refine ⟨same_done (by nofun) ⟨hs₁, hs₁', by omega, by rw [hsame', hsame, hbit]⟩, ?_, hsame⟩
  show n ≤ F.readers l₁ 0
  omega

/-- A writer that begins, or goes on with its bit set: it gets through where there are no readers. -/
theorem write {t : T} {t' : T'} (ht : t = Lock.block l ∧ t' = Lock.block l' ∨
      t = F.paused 0 ∧ t' = F'.paused 0 ∧ F.bit l 0 = true) :
    (likeness F F').Same (Lock.run l t) (Lock.run l' t') ∧ F.bit (Lock.run l t).1.1 0 = true := by
  obtain ⟨hs, hs', hreaders, hbit⟩ := h
  have hone := S.one
  have hone' := S'.one
  have hat : t = Lock.block l ∧ 0 = 0 ∨ t = F.paused 0 ∧ 0 < F.size ∧ F.bit l 0 = true := by
    rcases ht with ⟨ht, -⟩ | ⟨ht, -, hb⟩
    · exact .inl ⟨ht, rfl⟩
    · exact .inr ⟨ht, F.pos, hb⟩
  have hat' : t' = Lock.block l' ∧ 0 = 0 ∨ t' = F'.paused 0 ∧ 0 < F'.size ∧ F'.bit l' 0 = true := by
    rcases ht with ⟨-, ht'⟩ | ⟨-, ht', hb⟩
    · exact .inl ⟨ht', rfl⟩
    · exact .inr ⟨ht', F'.pos, by rw [hbit]; exact hb⟩
  by_cases hr : F.readers l 0 = 0
  · obtain ⟨l₁, ns, hrun, hs₁, hl⟩ := F.ends hs t 0 hat fun j _ hj => by
      obtain rfl : j = 0 := by omega
      exact hr
    obtain ⟨l₁', ns', hrun', hs₁', hl'⟩ := F'.ends hs' t' 0 hat' fun j _ hj => by
      obtain rfl : j = 0 := by omega
      rw [hreaders]
      exact hr
    obtain ⟨hread, hset⟩ := hl 0 F.pos
    obtain ⟨hread', hset'⟩ := hl' 0 F'.pos
    rw [decide_eq_true (Nat.le_refl 0), Bool.or_true] at hset hset'
    rw [hrun, hrun']
    exact ⟨same_done (by nofun) ⟨hs₁, hs₁', by rw [hread', hread, hreaders], by rw [hset', hset]⟩, hset⟩
  · have hpos := Nat.pos_of_ne_zero hr
    obtain ⟨l₁, ns, hrun, hs₁, hl⟩ := F.stops hs t 0 hat 0 (Nat.le_refl 0) F.pos
      (fun j _ hj => absurd hj (Nat.not_lt_zero j)) hpos
    obtain ⟨l₁', ns', hrun', hs₁', hl'⟩ := F'.stops hs' t' 0 hat' 0 (Nat.le_refl 0) F'.pos
      (fun j _ hj => absurd hj (Nat.not_lt_zero j)) (by rw [hreaders]; exact hpos)
    obtain ⟨hread, hset⟩ := hl 0 F.pos
    obtain ⟨hread', hset'⟩ := hl' 0 F'.pos
    rw [decide_eq_true ⟨Nat.le_refl 0, Nat.le_refl 0⟩, Bool.or_true] at hset hset'
    rw [hrun, hrun']
    exact ⟨same_more ⟨hs₁, hs₁', by rw [hread', hread, hreaders], by rw [hset', hset]⟩, hset⟩

theorem unblock (hb : F.bit l 0 = true) :
    (likeness F F').Same (Lock.run l (Lock.unblock l)) (Lock.run l' (Lock.unblock l')) := by
  obtain ⟨hs, hs', hreaders, hbit⟩ := h
  have hone := S.one
  have hone' := S'.one
  obtain ⟨l₁, ns, hrun, hs₁, hl⟩ := F.unblocks hs fun j hj => by
    obtain rfl : j = 0 := by omega
    exact hb
  obtain ⟨l₁', ns', hrun', hs₁', hl'⟩ := F'.unblocks hs' fun j hj => by
    obtain rfl : j = 0 := by omega
    rw [hbit]
    exact hb
  obtain ⟨hread, hclear⟩ := hl 0 F.pos
  obtain ⟨hread', hclear'⟩ := hl' 0 F'.pos
  rw [hrun, hrun']
  exact same_done (by nofun) ⟨hs₁, hs₁', by rw [hread', hread, hreaders], by rw [hclear', hclear]⟩

end

/-- As long as operations are fair to the one of the lower limit. -/
def mirror (S : F.Single) (S' : F'.Single) (hlimit : F.limit ≤ F'.limit) : Mirror L T L' T' where
  toLikeness := likeness F F'
  Room l n := ∀ m < n, F.bit l 0 = true ∨ F.readers l 0 + m < F.limit
  Held l n := n ≤ F.readers l 0
  Free l b := F.bit l 0 = true ∧ b = true
  Raised l := F.bit l 0 = true
  readers {l l'} h := by
    obtain ⟨n, hn, hread⟩ := S.readers l
    obtain ⟨n', hn', hread'⟩ := S'.readers l'
    obtain rfl : n' = n := UInt32.toNat_inj.mp (by rw [hread', hread, h.2.2.1])
    exact ⟨n', hn, hn'⟩
  isBlocked {l l'} h := by rw [S'.isBlocked l', S.isBlocked l, h.2.2.2]
  readersOn {l l'} h i i' := UInt32.toNat_inj.mp (by rw [S'.readersOn l' i', S.readersOn l i, h.2.2.1])
  crowded {l l'} h n := by rw [S'.crowded l' n, S.crowded l n, h.2.2.1]
  enter h _ hr i i' := by
    obtain ⟨hsame, hroom, hbit⟩ := S.enter S' h hlimit hr i i'
    exact ⟨hsame, hroom, fun hb => hbit.trans hb⟩
  leave h _ hr i i' := by
    obtain ⟨hsame, hheld, hbit⟩ := S.leave S' h hr i i'
    exact ⟨hsame, hheld, fun hb => hbit.trans hb⟩
  block h := S.write S' h (.inl ⟨rfl, rfl⟩)
  wait h hb _ _ ht := S.write S' h (.inr ⟨ht.1, ht.2, hb⟩)
  unblock h _ hf := ⟨S.unblock S' h hf.1, fun hb => absurd (hf.2.symm.trans hb) nofun⟩

end Face.Single

/-! ## Pauses -/

/-- The counters of the policy's tiers. -/
def EventName.isBackoff : EventName → Bool
  | .backoffSpin | .backoffYield | .backoffSleep => true
  | _ => false

/-- Only a reader whose swap fails pauses, in whatever company. -/
def PatientLock.PausesContended : Prop :=
  ∀ (l : PatientLock) (t : Task) (name : EventName), name.isBackoff = true → .event name ∈ (step l t).2.2 →
    ∃ e n k, t = .enter e n ∧ e.contended l.word = some k

theorem PatientLock.pausesContended : PausesContended := by
  intro l t name hname h
  cases t with
  | enter e n =>
    cases hc : e.contended l.word with
    | some k => exact ⟨e, n, k, rfl, hc⟩
    | none =>
      simp only [step, hc] at h
      generalize e.step l.word = r at h
      rcases r with ⟨w, e' | f | _ | _⟩
      · simp at h
      · simp at h
      · simp at h
        rw [h] at hname
        cases hname
      · simp at h
  | leave => cases h
  | block s =>
    simp only [step] at h
    generalize s.step l.word = r at h
    rcases r with ⟨w, s' | f | ⟨n, y⟩⟩
    · simp at h
    · simp at h
    · simp at h
  | unblock => cases h

namespace LockStep.Locks

variable {L T L' T' : Type} [Lock L T] [Lock L' T']

/-- No thread has ever paused. -/
def Unpaused (s : State L T) : Prop :=
  ∀ name : EventName, name.isBackoff = true →
    (s.team.book.global.event name).count = 0 ∧ ∀ t, ((s.team.book.ownOf t).event name).count = 0

theorem Accounted.unpaused {W : Worded L T} {N : W.Notes} {s : State L T} {as : List Bool} {n : Nat}
    (h : Accounted N.dues s [] as n) : Unpaused s := by
  intro name hname
  obtain ⟨l, us, m, m', -, -, hbilled⟩ := h.billed
  have hzero : ∀ {xs : List Sample} {as n}, N.dues.Bill xs as n → ((Stats.of xs).event name).count = 0 := by
    intro xs as n hbill
    have hcount : ((Stats.of xs).event name).count = as.count true * Sample.admission.count (.event name) +
        as.count false * Sample.refusal.count (.event name) + n * Sample.session.count (.event name) := hbill.event name
    rw [hcount]
    cases name with
    | readRejected => cases hname
    | queueInterrupted => cases hname
    | queueTimeout => cases hname
    | backoffSpin => rfl
    | backoffYield => rfl
    | backoffSleep => rfl
  refine ⟨?_, ?_⟩
  · obtain ⟨as, n, hmerged⟩ := hbilled.merged
    rw [hbilled.holds.global]
    exact hzero hmerged
  · intro t
    obtain ⟨as, n, hkept⟩ := hbilled.kept t
    rw [hbilled.holds.own t]
    exact hzero hkept

/-! ## Every run -/

/-- The free runs of both locks, and what the program refuses of them. -/
structure RunsAlike (l : L) (l' : L') (ops : List (Thread × Op)) : Prop where
  reports : List.Forall₂ Report.Same ((State.start l).runOf false ops).2 ((State.start l').runOf false ops).2
  /-- The same writers wait in the end. -/
  waiting : ((State.start l').runOf false ops).1.waiting.map Writer.who =
    ((State.start l).runOf false ops).1.waiting.map Writer.who
  begun : (State.start l').Begun ops ↔ (State.start l).Begun ops
  programmed : (State.start l).Programmed
  programmed' : (State.start l').Programmed

/-- The same has been counted, of each thread. -/
structure CountsAlike (l : L) (l' : L') (ops : List (Thread × Op)) : Prop where
  global : ((State.start l').runOf false ops).1.team.book.global = ((State.start l).runOf false ops).1.team.book.global
  own : ∀ t, ((State.start l').runOf false ops).1.team.book.ownOf t =
    ((State.start l).runOf false ops).1.team.book.ownOf t

/-- Under any operations, down to the word that they leave. -/
def Interchangeable (W : Worded L T) (W' : Worded L' T') (l : L) (l' : L') : Prop :=
  ∀ ops, (∀ e ∈ ops, e.2.isCommon = true) → RunsAlike l l' ops ∧ CountsAlike l l' ops ∧
    W'.word ((State.start l').runOf false ops).1.lock 0 = W.word ((State.start l).runOf false ops).1.lock 0

theorem twin_start {M : Mirror L T L' T'} {l : L} {l' : L'} (h : M.Like l l') :
    Twin M (.start l) (.start l') [] [] :=
  ⟨h, ⟨rfl, fun _ => rfl, fun _ _ => rfl⟩, rfl, .nil, .nil, fun hne => absurd rfl hne⟩

theorem runsAlike {M : Mirror L T L' T'} {l : L} {l' : L'} (h : M.Like l l') {ops : List (Thread × Op)}
    (hops : ∀ e ∈ ops, e.2.isCommon = true) (hr : AllowsRun M (.start l) ops) : RunsAlike l l' ops := by
  obtain ⟨htwin, hsame, -⟩ := run_twin ops (twin_start h) hops hr
  exact ⟨hsame, who_twin htwin, begun_twin ops (twin_start h) hops hr, State.programmed _, State.programmed _⟩

theorem allowsRun_mirror {W : Worded L T} {W' : Worded L' T'} (S : W.Single) (S' : W'.Single)
    (ops : List (Thread × Op)) (s : State L T) : AllowsRun (S.mirror S') s ops := by
  induction ops generalizing s with
  | nil => trivial
  | cons e ops ih =>
    obtain ⟨t, op⟩ := e
    refine ⟨?_, ih _⟩
    cases op with
    | drop g =>
      simp only [Allows]
      rcases s.guard? t g with _ | ⟨_, _, _ | _⟩ <;> trivial
    | _ => trivial

theorem interchangeable {W : Worded L T} {W' : Worded L' T'} (S : W.Single) (S' : W'.Single) {l : L} {l' : L'}
    (hl : W.Of l) (hl' : W'.Of l') (hword : W'.word l' 0 = W.word l 0) : Interchangeable W W' l l' := by
  intro ops hops
  have hlike : (S.mirror S').Like l l' := ⟨hl, hl', hword⟩
  have hr := allowsRun_mirror S S' ops (.start l)
  obtain ⟨htwin, -, -⟩ := run_twin ops (twin_start hlike) hops hr
  exact ⟨runsAlike hlike hops hr, ⟨htwin.team.global trivial, htwin.team.own trivial⟩, htwin.lock.2.2⟩

/-- The locks of one word can stand in for each other, misused or not, and no thread pauses unless it is disturbed. -/
theorem variants_interchangeable :
    (∀ policy, Interchangeable RetryLock.worded (PatientLock.worded policy) RetryLock.new (PatientLock.new policy)) ∧
    Interchangeable RetryLock.worded (StripedLock.worded 0) RetryLock.new (StripedLock.new 0) ∧
    (∀ policy strict ops, Unpaused ((State.start (PatientLock.new policy)).runOf strict ops).1) ∧
    PatientLock.PausesContended := by
  refine ⟨?_, ?_, ?_, PatientLock.pausesContended⟩
  · intro policy
    exact interchangeable RetryLock.single (PatientLock.single policy) trivial rfl rfl
  · exact interchangeable RetryLock.single StripedLock.single trivial rfl rfl
  · intro policy strict ops
    have hof : (PatientLock.notes policy).dues.Of (PatientLock.new policy) := rfl
    exact (accounted_run _ hof strict ops).unpaused

/-- A release of nobody, which leaves the word full and a bit that belongs to neither; a writer then waits in vain. -/
theorem variants_interchangeable_misused :
    let ops : List (Thread × Op) := [(0, .leave 1), (0, .enter none), (0, .unblock), (0, .enter none), (1, .block)]
    let s := ((State.start (StripedLock.new 0)).runOf false ops).1
    s.lock.word 0 = ⟨0xFFFFFFFF⟩ ∧ s.waiting.map Writer.who = [(1, none)] ∧
      (s.team.book.ownOf 0).readRejected.count = 1 ∧ (s.team.book.ownOf 0).readCasFailures.count = 1 := by
  intro ops s
  obtain ⟨halike, hcounts, hword⟩ := variants_interchangeable.2.1 ops (by decide)
  refine ⟨hword.trans ?_, halike.waiting.trans ?_, ?_, ?_⟩
  · decide +kernel
  · decide +kernel
  · rw [hcounts.own 0]
    decide +kernel
  · rw [hcounts.own 0]
    decide +kernel

/-- What is fair is allowed. -/
theorem allowsRun_of_fair {F : Face L T} {F' : Face L' T'} (S : F.Single) (S' : F'.Single) (hlimit : F.limit ≤ F'.limit)
    (ops : List (Thread × Op)) {s : State L T} (h : FairRun F s ops) : AllowsRun (S.mirror S' hlimit) s ops := by
  induction ops generalizing s with
  | nil => trivial
  | cons e ops ih =>
    obtain ⟨t, op⟩ := e
    refine ⟨?_, ih h.2⟩
    have hf := h.1.2
    have hroom : ∀ i n, Room F s i n → ∀ m < n, F.bit s.lock 0 = true ∨ F.readers s.lock 0 + m < F.limit := by
      intro i n hr
      unfold Room at hr
      rwa [S.slot_eq i] at hr
    have hheld : ∀ i n, Held F s i n → n ≤ F.readers s.lock 0 := by
      intro i n hr
      unfold Held at hr
      rwa [S.slot_eq i] at hr
    have hfree : Idle s → F.bit s.lock 0 = true ∧ s.waiting.isEmpty = true := by
      intro hi
      exact ⟨(S.isBlocked s.lock).symm.trans hi.1, List.isEmpty_iff.mpr hi.2⟩
    cases op with
    | enter n => exact hroom _ _ hf
    | read g => exact hroom _ _ hf
    | leave n => exact hheld _ _ hf
    | unblock => exact hfree hf
    | drop g =>
      simp only [FairOp] at hf
      simp only [Allows]
      rcases hg : s.guard? t g with _ | ⟨_, _, _ | _⟩
      · trivial
      · simp only [hg] at hf
        exact hheld _ _ hf
      · simp only [hg] at hf
        exact hfree hf
    | _ => trivial

theorem Report.Same.tame {r r' : Report} (h : r.Same r') {Fails : Fault → Prop} (ht : r.Tame Fails) :
    r'.Tame Fails := by
  refine ⟨?_, ?_, ?_⟩
  · rw [h.reply]
    exact ht.reply
  · intro x hx
    have hmem : x.outcome ∈ r.finished.map Finished.outcome := by
      rw [← h.finished]
      exact List.mem_map_of_mem hx
    obtain ⟨y, hy, hxy⟩ := List.mem_map.mp hmem
    have hreply : y.reply = x.reply := congrArg Prod.snd hxy
    rw [← hreply]
    exact ht.finished y hy
  · rw [h.readers]
    exact ht.readers

/-- No operation breaks off, and no count of readers. -/
def Unbroken (rs : List Report) : Prop := ∀ r ∈ rs, r.Tame fun _ => False

theorem Unbroken.same {rs rs' : List Report} (h : Unbroken rs) (hs : List.Forall₂ Report.Same rs rs') :
    Unbroken rs' := by
  induction hs with
  | nil => exact fun _ hr => absurd hr List.not_mem_nil
  | cons hr _ ih =>
    obtain ⟨hfirst, hrest⟩ := List.forall_mem_cons.mp h
    exact List.forall_mem_cons.mpr ⟨hr.tame hfirst, ih hrest⟩

theorem retry_limit_le : RetryLock.worded.face.limit ≤ CountedLock.face.limit := by decide

/-- The plain lock beside the counter and its flag. -/
def counting : Mirror RetryLock RetryLock.Task CountedLock CountedLock.Task :=
  RetryLock.single_face.mirror CountedLock.single_face retry_limit_le

theorem counting_new : counting.Like RetryLock.new CountedLock.new := by
  refine ⟨⟨trivial, ?_⟩, trivial, by decide, by decide⟩
  intro _ _
  exact Worded.counts_self Word.counts_free

/-- Under fair operations the counter and its flag do what the plain lock does. -/
theorem counted_agrees (ops : List (Thread × Op)) (hops : ∀ e ∈ ops, e.2.isCommon = true)
    (h : FairRun RetryLock.worded.face (.start RetryLock.new) ops) : RunsAlike RetryLock.new CountedLock.new ops ∧
      Unbroken ((State.start RetryLock.new).runOf false ops).2 ∧
      Unbroken ((State.start CountedLock.new).runOf false ops).2 := by
  have hr : AllowsRun counting (.start RetryLock.new) ops :=
    allowsRun_of_fair RetryLock.single_face CountedLock.single_face retry_limit_le ops h
  obtain ⟨-, hsame, htame⟩ := run_twin ops (twin_start counting_new) hops hr
  exact ⟨runsAlike counting_new hops hr, htame, Unbroken.same htame hsame⟩

/-- A reader comes and leaves, then a writer; of the next reader another writer waits, and a third reader is refused. -/
theorem counted_agrees_waiting :
    let ops : List (Thread × Op) := [(0, .enter none), (0, .leave 1), (1, .block), (1, .unblock), (0, .enter none),
      (1, .block), (2, .enter none)]
    (∀ e ∈ ops, e.2.isCommon = true) ∧ FairRun RetryLock.worded.face (.start RetryLock.new) ops ∧
      ((State.start CountedLock.new).runOf false ops).1.waiting.map Writer.who = [(1, none)] := by
  intro ops
  have hops : ∀ e ∈ ops, e.2.isCommon = true := by decide
  have hfair : FairRun RetryLock.worded.face (.start RetryLock.new) ops := by
    simp only [ops, FairRun, Fair, FairOp, Room, Held, Idle]
    decide +kernel
  exact ⟨hops, hfair, (counted_agrees ops hops hfair).1.waiting.trans (by decide +kernel)⟩

end LockStep.Locks

end BusyWait
