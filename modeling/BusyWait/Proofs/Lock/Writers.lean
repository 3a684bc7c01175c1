import BusyWait.LockStep.Locks
import BusyWait.Proofs.Lock.Faces

/-
  BusyWait.Proofs.Lock.Writers — writers that wait, in a run of whole operations.

  Any thread makes any operation, one after the other; a writer that has to wait stays in
  its block, and goes on after each later operation as far as it gets (`State.round`).
  Releases are of readers that are there, an unblock is of a lock that is blocked and
  waited for by nobody, and nobody tries to enter a stripe that is full (`Fair`).

  The invariant (`Orderly`): either nobody waits, and the bits are all clear, or all set
  with no reader left; or all who wait do so at the first stripe with readers, and the
  bits are set up to there. When an operation ends, that stripe may have lost its readers,
  and the writers that wait have not gone on yet (`Mid`).

  - `State.runAll_rounds`: where a run refuses no operation, it is this one.
  - `block_part`: a writer that begins gets through, or joins those who wait.
  - `perform_part`: what any fair operation leaves.
-/

namespace BusyWait.LockStep.Locks

variable {L T : Type} [Lock L T]

namespace State

/-- One operation of a thread, and then the writers that it lets through; of what a run refuses to begin too. -/
def round (s : State L T) (t : Thread) (op : Op) : State L T × List Finished :=
  let s := (s.consider t op).1
  let s := (perform (if op = .exit then s else { s with team := s.team.join t }) t op).1
  s.settle (s.waiting.length + 1)

/-- An operation that a run does not refuse is such. -/
theorem step_round {s : State L T} {t : Thread} {op : Op} (hw : s.isWaiting t = false)
    (hc : (s.consider t op).2 = none) :
    (s.step t op).1 = (s.round t op).1 ∧ (s.step t op).2.finished = (s.round t op).2.mergeSort byThread := by
  unfold step attempt round
  rw [hw]
  rcases hs : s.consider t op with ⟨s', r⟩
  rw [hs] at hc
  obtain rfl : r = none := hc
  exact ⟨rfl, rfl⟩

def rounds (s : State L T) : List (Thread × Op) → State L T
  | [] => s
  | (t, op) :: ops => (s.round t op).1.rounds ops

/-- The run refuses to begin none of its operations. -/
def Begun (s : State L T) : List (Thread × Op) → Prop
  | [] => True
  | (t, op) :: ops => (s.isWaiting t = false ∧ (s.consider t op).2 = none) ∧ (s.round t op).1.Begun ops

theorem runAll_rounds (ops : List (Thread × Op)) {s : State L T} (h : s.Begun ops) :
    (s.runAll ops).1 = s.rounds ops := by
  induction ops generalizing s with
  | nil => rfl
  | cons e ops ih =>
    obtain ⟨t, op⟩ := e
    obtain ⟨⟨hw, hc⟩, hrest⟩ := h
    have hstep := (step_round hw hc).1
    show ((s.step t op).1.runAll ops).1 = _
    rw [hstep]
    exact ih hrest

/-- The index that the lock takes the thread to have. -/
def own (s : State L T) (t : Thread) : Index := (s.indexFor t).2

end State

section
variable (F : Face L T)

/-- None of so many attempts to enter is made on an unblocked stripe that is full. -/
def Room (s : State L T) (i : Index) (n : Nat) : Prop :=
  ∀ m < n, F.bit s.lock (i.slot F.size) = true ∨ F.readers s.lock (i.slot F.size) + m < F.limit

/-- So many releases are of readers that are there. -/
def Held (s : State L T) (i : Index) (n : Nat) : Prop := n ≤ F.readers s.lock (i.slot F.size)

/-- The lock is blocked, and no writer is suspended. -/
def Idle (s : State L T) : Prop := Lock.isBlocked s.lock = true ∧ s.waiting = []

def FairOp (s : State L T) (t : Thread) : Op → Prop
  | .enter n => Room F s (s.own t) (n.getD 1)
  | .read _ => Room F s (s.own t) 1
  | .leave n => Held F s (s.own t) n
  | .enterAt i n => (Lock.stripes? s.lock).isSome = true → Room F s i (n.getD 1)
  | .leaveAt i n => (Lock.stripes? s.lock).isSome = true → Held F s i n
  | .unblock => Idle s
  | .drop g =>
    match s.guard? t g with
    | some ⟨_, _, .read⟩ => Held F s (s.own t) 1
    | some ⟨_, _, .write⟩ => Idle s
    | none => True
  | _ => True

/-- The thread is not waiting, and its operation keeps to the rules. -/
def Fair (s : State L T) (t : Thread) (op : Op) : Prop := s.isWaiting t = false ∧ FairOp F s t op

/-- Every operation of the run is fair. -/
def FairRun (s : State L T) : List (Thread × Op) → Prop
  | [] => True
  | (t, op) :: ops => Fair F s t op ∧ FairRun (s.round t op).1 ops

/-! ## The invariant -/

/-- No stripe has readers. -/
def NoReaders (l : L) : Prop := ∀ j < F.size, F.readers l j = 0

/-- The bits are all clear, or all set with no reader left. -/
def Calm (l : L) : Prop := (∀ j < F.size, F.bit l j = false) ∨ (∀ j < F.size, F.bit l j = true) ∧ NoReaders F l

/-- All of these writers wait at stripe `k`, and there are no readers before it. -/
structure Standing (l : L) (ws : List (Writer T)) (k : Nat) : Prop where
  lt : k < F.size
  task : ∀ w ∈ ws, w.task = F.paused k
  bits : ∀ j < F.size, F.bit l j = decide (j ≤ k)
  before : ∀ j < k, F.readers l j = 0

/-- In the middle of an operation. -/
def Mid (l : L) (ws : List (Writer T)) : Prop :=
  F.Sane l ∧ (ws = [] ∧ Calm F l ∨ ws ≠ [] ∧ ∃ k, Standing F l ws k)

/-- Between two operations. -/
def Orderly (l : L) (ws : List (Writer T)) : Prop :=
  F.Sane l ∧ (ws = [] ∧ Calm F l ∨ ws ≠ [] ∧ ∃ k, Standing F l ws k ∧ 0 < F.readers l k)

theorem Orderly.mid {F : Face L T} {l : L} {ws : List (Writer T)} (h : Orderly F l ws) : Mid F l ws := by
  obtain ⟨hs, hcalm | ⟨hne, k, hk, -⟩⟩ := h
  · exact ⟨hs, .inl hcalm⟩
  · exact ⟨hs, .inr ⟨hne, k, hk⟩⟩

/-- There is a first stripe with readers from `k` on, or none. -/
theorem first_busy (r : Nat → Nat) (k n : Nat) : (∀ j, k ≤ j → j < n → r j = 0) ∨
    ∃ m, k ≤ m ∧ m < n ∧ (∀ j, k ≤ j → j < m → r j = 0) ∧ 0 < r m := by
  induction n with
  | zero => exact .inl fun j _ hj => absurd hj (Nat.not_lt_zero j)
  | succ n ih =>
    rcases ih with hnone | ⟨m, hkm, hmn, hbefore, hm⟩
    · by_cases hn : k ≤ n ∧ 0 < r n
      · exact .inr ⟨n, hn.1, Nat.lt_succ_self n, hnone, hn.2⟩
      · left
        intro j hkj hj
        by_cases hjn : j < n
        · exact hnone j hkj hjn
        · obtain rfl : j = n := by omega
          omega
    · exact .inr ⟨m, hkm, by omega, hbefore, hm⟩

variable {F} {s : State L T} {t : Thread}

theorem State.run_eq {task : T} {l : L} {ns : List Note} {p : Progress T Verdict}
    (h : Lock.run s.lock task = ((l, ns), p)) :
    s.run t task = ({ s with lock := l, team := s.team.note t ns }, p, Note.lines ns) := by
  simp only [run, h]

/-! ## Readers come and go -/

/-- A reader gets in, where it may. -/
theorem Mid.entered {l l' : L} {ws : List (Writer T)} {p : Nat} (h : Mid F l ws) (hp : p < F.size)
    (hb : F.bit l p = false) (hs : F.Sane l') (hl : ∀ j < F.size,
      F.readers l' j = (if j = p then F.readers l j + 1 else F.readers l j) ∧ F.bit l' j = F.bit l j) :
    Mid F l' ws := by
  obtain ⟨-, ⟨hws, hcalm⟩ | ⟨hws, k, hk⟩⟩ := h
  · refine ⟨hs, .inl ⟨hws, ?_⟩⟩
    rcases hcalm with hclear | ⟨hset, -⟩
    · left
      intro j hj
      rw [(hl j hj).2]
      exact hclear j hj
    · rw [hset p hp] at hb
      cases hb
  · refine ⟨hs, .inr ⟨hws, k, hk.lt, hk.task, ?_, ?_⟩⟩
    · intro j hj
      rw [(hl j hj).2]
      exact hk.bits j hj
    · intro j hj
      have hjs := Nat.lt_trans hj hk.lt
      have hkp : ¬ p ≤ k := by
        rw [hk.bits p hp] at hb
        exact of_decide_eq_false hb
      rw [(hl j hjs).1, if_neg (by omega)]
      exact hk.before j hj

/-- A reader leaves. -/
theorem Mid.left {l l' : L} {ws : List (Writer T)} {p : Nat} (h : Mid F l ws) (hp : p < F.size)
    (hr : 0 < F.readers l p) (hs : F.Sane l') (hl : ∀ j < F.size,
      F.readers l' j = (if j = p then F.readers l j - 1 else F.readers l j) ∧ F.bit l' j = F.bit l j) :
    Mid F l' ws := by
  obtain ⟨-, ⟨hws, hcalm⟩ | ⟨hws, k, hk⟩⟩ := h
  · refine ⟨hs, .inl ⟨hws, ?_⟩⟩
    rcases hcalm with hclear | ⟨-, hempty⟩
    · left
      intro j hj
      rw [(hl j hj).2]
      exact hclear j hj
    · have := hempty p hp
      omega
  · refine ⟨hs, .inr ⟨hws, k, hk.lt, hk.task, ?_, ?_⟩⟩
    · intro j hj
      rw [(hl j hj).2]
      exact hk.bits j hj
    · intro j hj
      have hjs := Nat.lt_trans hj hk.lt
      have hzero := hk.before j hj
      rw [(hl j hjs).1]
      split
      · omega
      · exact hzero

variable (F) in
/-- Part of an operation, in which no writer is suspended or gets through. -/
def Part (s s' : State L T) : Prop := Mid F s'.lock s'.waiting ∧ s'.waiting = s.waiting

/-- One attempt to enter: turned away, or in. -/
theorem enterOnce_part (h : Mid F s.lock s.waiting) (i : Index) (hr : F.bit s.lock (i.slot F.size) = true ∨
    F.readers s.lock (i.slot F.size) < F.limit) : ∃ s' p, s.enterOnce t i = (s', p) ∧ Part F s s' ∧
      (s'.lock = s.lock ∧ p = .done .refused ∨
        (p = .done .entered ∧ F.bit s'.lock (i.slot F.size) = F.bit s.lock (i.slot F.size) ∧
          F.readers s'.lock (i.slot F.size) = F.readers s.lock (i.slot F.size) + 1)) := by
  unfold State.enterOnce
  by_cases hb : F.bit s.lock (i.slot F.size) = true
  · obtain ⟨ns, hrun⟩ := F.refuses h.1 i hb
    rw [State.run_eq hrun]
    exact ⟨_, _, rfl, ⟨h, rfl⟩, .inl ⟨rfl, rfl⟩⟩
  · have hclear := Bool.eq_false_iff.mpr hb
    obtain ⟨l, ns, hrun, hs, hl⟩ := F.enters h.1 i hclear (hr.resolve_left hb)
    have hslot := F.slot_lt i
    obtain ⟨hread, hbit⟩ := hl _ hslot
    rw [if_pos rfl] at hread
    rw [State.run_eq hrun]
    exact ⟨_, _, rfl, ⟨h.entered hslot hclear hs hl, rfl⟩, .inr ⟨rfl, hbit, hread⟩⟩

theorem enterMany_part (n : Nat) (h : Mid F s.lock s.waiting) (i : Index) (got : Nat) (hr : Room F s i n) :
    Part F s (s.enterMany t i got n).1 := by
  induction n generalizing s got with
  | zero => exact ⟨h, rfl⟩
  | succ n ih =>
    unfold State.enterMany
    obtain ⟨s', p, he, ⟨hmid, hws⟩, hcase⟩ := enterOnce_part (t := t) h i (hr 0 (Nat.succ_pos n))
    rw [he]
    have hroom : Room F s' i n := by
      intro j hj
      rcases hcase with ⟨hl, -⟩ | ⟨-, hbit, hread⟩
      · rw [hl]
        exact hr j (by omega)
      · rw [hbit, hread, Nat.add_assoc, Nat.add_comm 1]
        exact hr (j + 1) (by omega)
    have hrest : ∀ got', Part F s (s'.enterMany t i got' n).1 := by
      intro got'
      obtain ⟨hm, hw⟩ := ih hmid got' hroom
      exact ⟨hm, hw.trans hws⟩
    rcases hcase with ⟨-, rfl⟩ | ⟨rfl, -, -⟩
    · exact hrest got
    · exact hrest (got + 1)

theorem enter_part (h : Mid F s.lock s.waiting) (i : Index) (n : Option Nat) (hr : Room F s i (n.getD 1)) :
    Part F s (s.enter t i n).1 := by
  cases n with
  | none =>
    obtain ⟨s', p, he, hpart, -⟩ := enterOnce_part (t := t) h i (hr 0 Nat.one_pos)
    unfold State.enter
    rw [he]
    exact hpart
  | some n => exact enterMany_part n h i 0 hr

theorem leaveMany_part (n : Nat) (h : Mid F s.lock s.waiting) (i : Index) (hr : Held F s i n) :
    Part F s (s.leaveMany t i n).1 := by
  induction n generalizing s with
  | zero => exact ⟨h, rfl⟩
  | succ n ih =>
    unfold Held at hr
    have hslot := F.slot_lt i
    obtain ⟨l, ns, hrun, hs, hl⟩ := F.leaves h.1 i (by omega)
    obtain ⟨hread, -⟩ := hl _ hslot
    rw [if_pos rfl] at hread
    unfold State.leaveMany
    rw [State.run_eq hrun]
    refine ih (s := { s with lock := l, team := s.team.note t ns }) (h.left hslot (by omega) hs hl) ?_
    show n ≤ F.readers l _
    omega

/-- Of a lock that is blocked and waited for by nobody. -/
theorem unblock_part (h : Orderly F s.lock s.waiting) (hi : Idle s) : Part F s (s.unblock t).1 := by
  obtain ⟨hs, ⟨hws, hcalm⟩ | ⟨hne, -⟩⟩ := h
  · have hset : ∀ j < F.size, F.bit s.lock j = true := by
      obtain ⟨k, hk, hb⟩ := F.blocked hs hi.1
      rcases hcalm with hclear | ⟨hset, -⟩
      · rw [hclear k hk] at hb
        cases hb
      · exact hset
    obtain ⟨l, ns, hrun, hs', hl⟩ := F.unblocks hs hset
    unfold State.unblock
    rw [State.run_eq hrun]
    exact ⟨⟨hs', .inl ⟨hws, .inl fun j hj => (hl j hj).2⟩⟩, rfl⟩
  · exact absurd hi.2 hne

/-! ## A writer begins -/

/-- The first stripe with readers is where the others wait. -/
theorem Orderly.first_eq {l : L} {ws : List (Writer T)} (h : Orderly F l ws) (hne : ws ≠ []) {m : Nat}
    (hbefore : ∀ j < m, F.readers l j = 0) (hm : 0 < F.readers l m) : Standing F l ws m := by
  obtain ⟨-, ⟨hws, -⟩ | ⟨-, k, hk, hkpos⟩⟩ := h
  · exact absurd hws hne
  · have hkm : k = m := by
      rcases Nat.lt_trichotomy k m with hlt | heq | hgt
      · have := hbefore k hlt
        omega
      · exact heq
      · have := hk.before m hgt
        omega
    exact hkm ▸ hk

/-- Where a writer stops that begins. -/
theorem Orderly.joined {l l' : L} {ws : List (Writer T)} (h : Orderly F l ws) {m : Nat} (hm : m < F.size)
    (hbefore : ∀ j < m, F.readers l j = 0) (hpos : 0 < F.readers l m) (hs : F.Sane l') (hl : ∀ j < F.size,
      F.readers l' j = F.readers l j ∧ F.bit l' j = (F.bit l j || decide (0 ≤ j ∧ j ≤ m))) (w : Writer T)
    (hw : w.task = F.paused m) : Orderly F l' (ws ++ [w]) := by
  refine ⟨hs, .inr ⟨by simp, m, ⟨hm, ?_, ?_, ?_⟩, ?_⟩⟩
  · intro v hv
    rcases List.mem_append.mp hv with hv | hv
    · exact (h.first_eq (List.ne_nil_of_mem hv) hbefore hpos).task v hv
    · rw [List.mem_singleton.mp hv, hw]
  · intro j hj
    rw [(hl j hj).2]
    by_cases hne : ws = []
    · obtain ⟨-, ⟨-, hclear | ⟨-, hempty⟩⟩ | ⟨hne', -⟩⟩ := h
      · simp [hclear j hj]
      · have := hempty m hm
        omega
      · exact absurd hne hne'
    · rw [(h.first_eq hne hbefore hpos).bits j hj]
      simp
  · intro j hj
    rw [(hl j (Nat.lt_trans hj hm)).1]
    exact hbefore j hj
  · rw [(hl m hm).1]
    exact hpos

omit [Lock L T] in
theorem lock_hold (s : State L T) (t : Thread) (g : Option String) :
    (s.hold t g).lock = s.lock ∧ (s.hold t g).waiting = s.waiting := by
  cases g <;> exact ⟨rfl, rfl⟩

/-- It gets through at once, and then nobody waits; or it joins those who wait. -/
theorem block_part (h : Orderly F s.lock s.waiting) (g : Option String) : Part F s (s.block t g).1 ∨
    Orderly F (s.block t g).1.lock (s.block t g).1.waiting ∧ ∃ w, (s.block t g).1.waiting = s.waiting ++ [w] := by
  have hbegin : Lock.block s.lock = Lock.block s.lock ∧ 0 = 0 ∨
      Lock.block s.lock = F.paused 0 ∧ 0 < F.size ∧ F.bit s.lock 0 = true := .inl ⟨rfl, rfl⟩
  unfold State.block
  rcases first_busy (F.readers s.lock) 0 F.size with hnone | ⟨m, -, hm, hbefore, hpos⟩
  · left
    obtain ⟨l, ns, hrun, hs, hl⟩ := F.ends h.1 _ 0 hbegin hnone
    have hws : s.waiting = [] := by
      obtain ⟨-, ⟨hws, -⟩ | ⟨-, k, hk, hkpos⟩⟩ := h
      · exact hws
      · have := hnone k (Nat.zero_le k) hk.lt
        omega
    rw [State.run_eq hrun]
    obtain ⟨hlock, hwaiting⟩ := lock_hold { s with lock := l, team := s.team.note t ns } t g
    unfold Part
    rw [hlock, hwaiting]
    refine ⟨⟨hs, .inl ⟨hws, .inr ⟨?_, ?_⟩⟩⟩, rfl⟩
    · intro j hj
      rw [(hl j hj).2, decide_eq_true (Nat.zero_le j), Bool.or_true]
    · intro j hj
      rw [(hl j hj).1]
      exact hnone j (Nat.zero_le j) hj
  · right
    obtain ⟨l, ns, hrun, hs, hl⟩ := F.stops h.1 _ 0 hbegin m (Nat.zero_le m) hm hbefore hpos
    rw [State.run_eq hrun]
    exact ⟨h.joined hm (fun j => hbefore j (Nat.zero_le j)) hpos hs hl _ rfl, _, rfl⟩

/-! ## Any operation -/

/-- Lock, writers and guards are as they were, and so is the thread's index. -/
structure Alike (t : Thread) (s s' : State L T) : Prop where
  lock : s'.lock = s.lock
  waiting : s'.waiting = s.waiting
  guards : s'.guards = s.guards
  own : s'.own t = s.own t

theorem Alike.part {s s' r : State L T} (h : Alike t s s') (hr : Part F s' r) : Part F s r :=
  ⟨hr.1, hr.2.trans h.waiting⟩

theorem own_eq (s : State L T) (t : Thread) :
    s.own t = if Lock.spread s.lock then (s.team.registry.get t).2 else ⟨0⟩ := by
  unfold State.own State.indexFor
  split <;> rfl

theorem alike_join (s : State L T) (t : Thread) : Alike t s { s with team := s.team.join t } :=
  ⟨rfl, rfl, rfl, by rw [own_eq, own_eq]; rfl⟩

/-- To take one's index changes neither lock nor index. -/
theorem alike_indexFor (s : State L T) (t : Thread) : Alike t s (s.indexFor t).1 := by
  unfold State.indexFor
  by_cases hs : Lock.spread s.lock = true
  · rw [if_pos hs]
    refine ⟨rfl, rfl, rfl, ?_⟩
    rw [own_eq, own_eq, if_pos hs, if_pos hs]
    show ((s.team.registry.get t).1.get t).2 = _
    rw [Registry.get_of_kept (Registry.kept_get s.team.registry t)]
  · rw [if_neg hs]
    exact ⟨rfl, rfl, rfl, rfl⟩

theorem alike_consider (s : State L T) (t : Thread) (op : Op) : Alike t s (s.consider t op).1 := by
  have same : Alike t s s := ⟨rfl, rfl, rfl, rfl⟩
  cases op with
  | leave n =>
    unfold State.consider
    by_cases hw : s.waiting.isEmpty = true
    · simp only [hw, ↓reduceIte]
      exact same
    · simp only [hw]
      exact alike_indexFor s t
  | _ => exact same

theorem FairOp.alike {s s' : State L T} {op : Op} (h : FairOp F s t op) (ha : Alike t s s') : FairOp F s' t op := by
  have hguard : ∀ g, s'.guard? t g = s.guard? t g := by
    intro g
    unfold State.guard?
    rw [ha.guards]
  unfold FairOp at h ⊢
  unfold Room Held Idle at h ⊢
  simp only [ha.lock, ha.waiting, ha.own, hguard]
  exact h

theorem withIndex_part {times : Option Nat} {f : State L T → Index → State L T × Reply} (hf : ∀ s', Alike t s s' →
    ∀ i, times = some 0 ∨ i = s.own t → Part F s' (f s' i).1) : Part F s (s.withIndex t times f).1 := by
  unfold State.withIndex
  split
  · exact hf s ⟨rfl, rfl, rfl, rfl⟩ _ (.inl rfl)
  · exact (alike_indexFor s t).part (hf _ (alike_indexFor s t) _ (.inr rfl))

theorem onStripes_part {f : Array Word → State L T × Reply} (h : Mid F s.lock s.waiting)
    (hf : ∀ ws, Lock.stripes? s.lock = some ws → Part F s (f ws).1) : Part F s (s.onStripes f).1 := by
  unfold State.onStripes
  split
  · rename_i ws hws
    exact hf ws hws
  · exact ⟨h, rfl⟩

theorem drop_part (h : Orderly F s.lock s.waiting) (g : Guard) (hf : match g.kind with
    | .read => Held F s (s.own t) 1
    | .write => Idle s) : Part F s (s.dropGuard t g).1 := by
  unfold State.dropGuard
  cases hk : g.kind with
  | read =>
    rw [hk] at hf
    have hi := alike_indexFor ({ s with guards := s.guards.erase g } : State L T) t
    have hown : State.own ({ s with guards := s.guards.erase g } : State L T) t = s.own t := by rw [own_eq, own_eq]
    refine hi.part (leaveMany_part 1 ?_ _ ?_)
    · rw [hi.lock, hi.waiting]
      exact h.mid
    · unfold Held at hf ⊢
      rw [hi.lock]
      rw [← hown] at hf
      exact hf
  | write =>
    rw [hk] at hf
    exact unblock_part (s := { s with guards := s.guards.erase g }) h hf

theorem read_part (h : Mid F s.lock s.waiting) (g : String) (hr : Room F s (s.own t) 1) :
    Part F s (s.perform t (.read g)).1 := by
  have ha := alike_indexFor s t
  unfold State.own at hr
  unfold State.perform
  rcases hi : s.indexFor t with ⟨s₁, i⟩
  rw [hi] at ha hr
  have hmid : Mid F s₁.lock s₁.waiting := by
    rw [ha.lock, ha.waiting]
    exact h
  have hroom : Room F s₁ i 1 := by
    unfold Room
    rw [ha.lock]
    exact hr
  obtain ⟨s', p, he, hpart, hcase⟩ := enterOnce_part (t := t) hmid i (hroom 0 Nat.one_pos)
  refine ha.part ?_
  simp only [he]
  rcases hcase with ⟨-, rfl⟩ | ⟨rfl, -, -⟩
  · exact hpart
  · exact hpart

/-- An operation that is fair. -/
theorem perform_part (h : Orderly F s.lock s.waiting) {op : Op} (hf : FairOp F s t op) :
    Part F s (s.perform t op).1 ∨ Orderly F (s.perform t op).1.lock (s.perform t op).1.waiting ∧
      ∃ w, (s.perform t op).1.waiting = s.waiting ++ [w] := by
  have still : Part F s s := ⟨h.mid, rfl⟩
  cases op with
  | block => exact block_part h none
  | write g => exact block_part h (some g)
  | enter n =>
    left
    show Part F s (s.withIndex t n fun s i => s.enter t i n).1
    refine withIndex_part ?_
    intro s' ha i hi
    refine enter_part (by rw [ha.lock, ha.waiting]; exact h.mid) i n ?_
    unfold Room
    rw [ha.lock]
    rcases hi with rfl | rfl
    · exact fun m hm => absurd hm (Nat.not_lt_zero m)
    · exact hf
  | leave n =>
    left
    show Part F s (s.withIndex t (some n) fun s i => s.leaveMany t i n).1
    refine withIndex_part ?_
    intro s' ha i hi
    refine leaveMany_part n (by rw [ha.lock, ha.waiting]; exact h.mid) i ?_
    unfold Held
    rw [ha.lock]
    rcases hi with hn | rfl
    · cases hn
      exact Nat.zero_le _
    · exact hf
  | unblock => exact .inl (unblock_part h hf)
  | read g => exact .inl (read_part h.mid g hf)
  | drop g =>
    left
    unfold FairOp at hf
    cases hg : s.guard? t g with
    | none =>
      simp only [State.perform, hg]
      exact still
    | some h' =>
      simp only [hg] at hf
      simp only [State.perform, hg]
      refine drop_part h h' ?_
      obtain ⟨u, name, kind⟩ := h'
      cases kind <;> exact hf
  | enterAt i n => exact .inl (onStripes_part h.mid fun ws hws => enter_part h.mid i n (hf (by rw [hws]; rfl)))
  | leaveAt i n => exact .inl (onStripes_part h.mid fun ws hws => leaveMany_part n h.mid i (hf (by rw [hws]; rfl)))
  | readersAt k => exact .inl (onStripes_part h.mid fun _ _ => still)
  | stripeOf i => exact .inl (onStripes_part h.mid fun _ _ => still)
  | stripeCount => exact .inl (onStripes_part h.mid fun _ _ => still)
  | ownStripe => exact .inl (onStripes_part h.mid fun _ _ => still)
  | formatGuard g f =>
    left
    cases hg : s.guard? t g <;> simp only [State.perform, hg] <;> exact still
  | readers => exact .inl still
  | isBlocked => exact .inl still
  | debug alt => exact .inl still
  | policy => exact .inl still
  | index => exact .inl still
  | nextIndex => exact .inl still
  | tally op => exact .inl still
  | exit => exact .inl still
  | unknown => exact .inl still

end

end BusyWait.LockStep.Locks
