import BusyWait.Proofs.Decimal.Share
import BusyWait.Proofs.Lock.Dues
import BusyWait.Proofs.Lock.Passage
import BusyWait.Proofs.Lock.Runs
import Mathlib.Data.Bool.Count

/-
  BusyWait.Proofs.Lock.Accounts — what a lock's counters say of what the lock did.

  What a run answers to attempts to read is read off its states (`State.answersIn`), and
  the blocks that it completes off its reports (`blocksIn`). The invariant (`Accounted`):
  the counters show what is due for these and for the words behind the writers that wait.
-/

namespace BusyWait.LockStep.Locks

variable {L T : Type} [Lock L T]

/-! ## What a run did -/

/-- The answer to an attempt that has ended, unless it broke off. -/
def answer? : Progress T Verdict → Option Bool
  | .done .entered => some true
  | .done .refused => some false
  | _ => none

namespace State

/-- Of so many attempts, up to the first that breaks off. -/
def answers (s : State L T) (t : Thread) (i : Index) : Nat → List Bool
  | 0 => []
  | n + 1 =>
    match s.enterOnce t i with
    | (_, .done (.failed _)) => []
    | (s, p) => (answer? p).toList ++ answers s t i n

def answersTo (s : State L T) (t : Thread) : Op → List Bool
  | .enter n => (s.indexFor t).1.answers t (s.indexFor t).2 (n.getD 1)
  | .read _ => (s.indexFor t).1.answers t (s.indexFor t).2 1
  | .enterAt i n => if (Lock.stripes? s.lock).isSome then s.answers t i (n.getD 1) else []
  | _ => []

/-- An operation that is refused attempts nothing. -/
def answersOf (strict : Bool) (s : State L T) (t : Thread) (op : Op) : List Bool :=
  match s.refuse strict t op with
  | (_, some _) => []
  | (s, none) => (s.begun t op).answersTo t op

def answersIn (strict : Bool) (s : State L T) : List (Thread × Op) → List Bool
  | [] => []
  | (t, op) :: ops => s.answersOf strict t op ++ answersIn strict (s.stepOf strict t op).1 ops

end State

/-- The reply of a writer that is through. -/
def Reply.through : Reply → Bool
  | .done => true
  | .flag b => b
  | _ => false

def Op.blocks : Op → Bool
  | .block | .write _ => true
  | _ => false

/-- Its own block. -/
def Reply.passed (r : Reply) : Nat := if r.through then 1 else 0

/-- Those of writers that waited. -/
def passedIn (fs : List Finished) : Nat := fs.countP (·.reply.through)

/-- The blocks that were completed with an operation. -/
def Report.blocks (op : Op) (r : Report) : Nat := (if op.blocks then r.reply.passed else 0) + passedIn r.finished

def blocksIn : List (Thread × Op) → List Report → Nat
  | (_, op) :: ops, r :: rs => r.blocks op + blocksIn ops rs
  | _, _ => 0

/-! ## The invariant -/

section
variable (D : Dues L T)

/-- The words behind these writers. -/
inductive Behind : List (Writer T) → Nat → Prop
  | nil : Behind [] 0
  | cons {w : Writer T} {ws : List (Writer T)} {k n : Nat} (hw : D.Paused w.task k) (hws : Behind ws n) :
      Behind (w :: ws) (k + n)

/-- The counters show what is due. The writers `rest` are still to go on. -/
structure Accounted (s : State L T) (rest : List (Writer T)) (answers : List Bool) (blocks : Nat) : Prop where
  of : D.Of s.lock
  billed : ∃ l us m n, Behind D s.waiting m ∧ Behind D rest n ∧
    D.Billed s.team.book l us answers (blocks * D.size + (m + n))

variable {D}

theorem Behind.append {ws ws' : List (Writer T)} {m n : Nat} (h : Behind D ws m) (h' : Behind D ws' n) :
    Behind D (ws ++ ws') (m + n) := by
  induction h with
  | nil =>
    rw [Nat.zero_add]
    exact h'
  | cons hw _ ih =>
    rw [Nat.add_assoc]
    exact .cons hw ih

theorem accounted_start {l : L} (hl : D.Of l) : Accounted D (.start l) [] [] 0 := by
  refine ⟨hl, .start, [], 0, 0, .nil, .nil, ?_⟩
  rw [Nat.zero_mul]
  exact D.billed_empty

variable {s s' : State L T} {t : Thread} {rest : List (Writer T)} {as bs : List Bool} {n : Nat}

theorem Accounted.same (h : Accounted D s rest as n) (hl : s'.lock = s.lock) (hw : s'.waiting = s.waiting)
    (hb : s'.team.book = s.team.book) : Accounted D s' rest as n := by
  refine ⟨?_, ?_⟩
  · rw [hl]
    exact h.of
  · rw [hw, hb]
    exact h.billed

/-- What is recorded of an attempt, or of nothing. -/
theorem Accounted.record (h : Accounted D s rest as n) {l : L} {ns : List Note} (hl : D.Of l)
    (hns : D.Bill (Note.samples ns) bs 0) :
    Accounted D { s with lock := l, team := s.team.note t ns } rest (as ++ bs) n := by
  obtain ⟨ledger, us, m, k, hwaiting, hrest, hbilled⟩ := h.billed
  exact ⟨hl, _, _, m, k, hwaiting, hrest, hbilled.notes t hns⟩

theorem Accounted.record_none (h : Accounted D s rest as n) {l : L} {ns : List Note} (hl : D.Of l)
    (hns : Note.samples ns = []) : Accounted D { s with lock := l, team := s.team.note t ns } rest as n := by
  have hnil : D.Bill (Note.samples ns) [] 0 := by
    rw [hns]
    exact D.bill_nil
  have := h.record (t := t) hl hnil
  rwa [List.append_nil] at this

/-! ## Readers -/

/-- An attempt: it gets in, is refused, or breaks off. -/
theorem enterOnce_accounted (h : Accounted D s [] as n) (i : Index) : ∃ s' v, s.enterOnce t i = (s', .done v) ∧
    Accounted D s' [] (as ++ (answer? (T := T) (.done v)).toList) n ∧
      (v = .entered ∨ v = .refused ∨ ∃ f, v = .failed f) := by
  obtain ⟨l, ns, v, hrun, hl, hcase⟩ := D.enters h.of i
  unfold State.enterOnce
  rw [State.run_eq hrun]
  rcases hcase with ⟨rfl, hns⟩ | ⟨rfl, hns⟩ | ⟨⟨f, rfl⟩, hns⟩
  · exact ⟨_, _, rfl, h.record hl (by rw [hns]; exact D.bill_admission), .inl rfl⟩
  · exact ⟨_, _, rfl, h.record hl (by rw [hns]; exact D.bill_refusal), .inr (.inl rfl)⟩
  · exact ⟨_, _, rfl, h.record hl (by rw [hns]; exact D.bill_nil), .inr (.inr ⟨f, rfl⟩)⟩

/-- Of several attempts all are answered, and as many get in as the reply says; or one breaks off. -/
theorem enterMany_accounted (k : Nat) (h : Accounted D s [] as n) (i : Index) (got : Nat) :
    Accounted D (s.enterMany t i got k).1 [] (as ++ s.answers t i k) n ∧
      ((s.enterMany t i got k).2 = .count (got + (s.answers t i k).count true) ∧ (s.answers t i k).length = k ∨
        ∃ f, (s.enterMany t i got k).2 = .fault f ∧ (s.answers t i k).length < k) := by
  induction k generalizing s as got with
  | zero =>
    refine ⟨?_, .inl ⟨rfl, rfl⟩⟩
    rw [State.answers, List.append_nil]
    exact h
  | succ k ih =>
    obtain ⟨s', v, hs, h', hv⟩ := enterOnce_accounted (t := t) h i
    unfold State.enterMany State.answers
    rw [hs]
    rcases hv with rfl | rfl | ⟨f, rfl⟩
    · obtain ⟨hacc, hreply⟩ := ih h' (got + 1)
      rw [List.append_assoc] at hacc
      refine ⟨hacc, ?_⟩
      rcases hreply with ⟨hcount, hlen⟩ | ⟨f, hf, hlen⟩
      · refine .inl ⟨hcount.trans ?_, congrArg Nat.succ hlen⟩
        show Reply.count _ = .count (got + (true :: s'.answers t i k).count true)
        rw [List.count_cons_self, Nat.add_right_comm, Nat.add_assoc]
      · exact .inr ⟨f, hf, Nat.succ_lt_succ hlen⟩
    · obtain ⟨hacc, hreply⟩ := ih h' got
      rw [List.append_assoc] at hacc
      refine ⟨hacc, ?_⟩
      rcases hreply with ⟨hcount, hlen⟩ | ⟨f, hf, hlen⟩
      · refine .inl ⟨hcount.trans ?_, congrArg Nat.succ hlen⟩
        show Reply.count _ = .count (got + (false :: s'.answers t i k).count true)
        rw [List.count_cons_of_ne Bool.false_ne_true]
      · exact .inr ⟨f, hf, Nat.succ_lt_succ hlen⟩
    · exact ⟨h', .inr ⟨f, rfl, Nat.succ_pos k⟩⟩

/-- One attempt, with its answer. -/
theorem answers_one (s : State L T) (t : Thread) (i : Index) :
    s.answers t i 1 = (answer? (s.enterOnce t i).2).toList := by
  unfold State.answers
  rcases s.enterOnce t i with ⟨s', t' | v⟩
  · rfl
  · cases v <;> rfl

theorem enter_accounted (h : Accounted D s [] as n) (i : Index) (k : Option Nat) :
    Accounted D (s.enter t i k).1 [] (as ++ s.answers t i (k.getD 1)) n := by
  cases k with
  | none =>
    obtain ⟨s', v, hs, h', -⟩ := enterOnce_accounted (t := t) h i
    show Accounted D _ [] (as ++ s.answers t i 1) n
    rw [answers_one]
    unfold State.enter
    rw [hs]
    exact h'
  | some k => exact (enterMany_accounted k h i 0).1

theorem leaveMany_accounted (k : Nat) (h : Accounted D s [] as n) (i : Index) :
    Accounted D (s.leaveMany t i k).1 [] as n := by
  induction k generalizing s with
  | zero => exact h
  | succ k ih =>
    obtain ⟨l, ns, v, hrun, hl, hns⟩ := D.leaves h.of i
    have h' := h.record_none (t := t) hl hns
    unfold State.leaveMany
    rw [State.run_eq hrun]
    cases v with
    | finished => exact ih h'
    | entered => exact h'
    | refused => exact h'
    | failed f => exact h'

/-! ## Writers -/

theorem unblock_accounted (h : Accounted D s [] as n) : Accounted D (s.unblock t).1 [] as n := by
  obtain ⟨l, ns, v, hrun, hl, hns⟩ := D.unblocks h.of
  unfold State.unblock
  rw [State.run_eq hrun]
  exact h.record_none hl hns

theorem through_writerReply (g : Option String) : (State.writerReply g).through = true := by
  unfold State.writerReply
  split <;> rfl

/-- A writer with `k` words behind it, that begins or goes on. -/
theorem writer_accounted {task : T} {k : Nat} (htask : task = Lock.block s.lock ∧ k = 0 ∨ D.Paused task k)
    (hof : D.Of s.lock) (hbilled : ∃ l us m m', Behind D s.waiting m ∧ Behind D rest m' ∧
      D.Billed s.team.book l us as (n * D.size + (m + (k + m')))) :
    (∃ l ns task', Lock.run s.lock task = ((l, ns), .more task') ∧ ∀ w : Writer T, w.task = task' →
      Accounted D { s with lock := l, team := s.team.note t ns, waiting := s.waiting ++ [w] } rest as n) ∨
    ∃ l ns, Lock.run s.lock task = ((l, ns), .done .finished) ∧
      Accounted D { s with lock := l, team := s.team.note t ns } rest as (n + 1) := by
  obtain ⟨l₀, us, m, m', hwaiting, hrest, hb⟩ := hbilled
  rcases D.blocks hof htask with ⟨l, ns, task', k', hrun, hl, hpaused, hkk, hns⟩ | ⟨l, ns, hrun, hl, hk, hns⟩
  · refine .inl ⟨l, ns, task', hrun, ?_⟩
    intro w hw
    subst hw
    have hbill : D.Bill (Note.samples ns) [] (k' - k) := by
      rw [hns]
      exact D.bill_sessions _
    have hmore := hb.notes t hbill
    rw [List.append_nil] at hmore
    have hsum : n * D.size + (m + (k + m')) + (k' - k) = n * D.size + ((m + (k' + 0)) + m') := by omega
    rw [hsum] at hmore
    exact ⟨hl, _, _, _, m', hwaiting.append (.cons hpaused .nil), hrest, hmore⟩
  · refine .inr ⟨l, ns, hrun, ?_⟩
    have hbill : D.Bill (Note.samples ns) [] (D.size - k) := by
      rw [hns]
      exact D.bill_sessions _
    have hmore := hb.notes t hbill
    rw [List.append_nil] at hmore
    have hsum : n * D.size + (m + (k + m')) + (D.size - k) = (n + 1) * D.size + (m + m') := by
      rw [Nat.succ_mul]
      omega
    rw [hsum] at hmore
    exact ⟨hl, _, _, m, m', hwaiting, hrest, hmore⟩

theorem hold_accounted (h : Accounted D s rest as n) (u : Thread) (g : Option String) :
    Accounted D (s.hold u g) rest as n := by
  cases g with
  | none => exact h
  | some g => exact h.same rfl rfl rfl

theorem block_accounted (h : Accounted D s [] as n) (g : Option String) :
    Accounted D (s.block t g).1 [] as (n + (s.block t g).2.1.passed) := by
  obtain ⟨l, us, m, m', hwaiting, hrest, hb⟩ := h.billed
  unfold State.block
  rw [← Nat.zero_add m'] at hb
  rcases writer_accounted (t := t) (.inl ⟨rfl, rfl⟩) h.of ⟨l, us, m, m', hwaiting, hrest, hb⟩
    with ⟨l', ns, task', hrun, hmore⟩ | ⟨l', ns, hrun, hdone⟩
  · rw [State.run_eq hrun]
    exact hmore _ rfl
  · rw [State.run_eq hrun]
    have hone : (State.writerReply g).passed = 1 := if_pos (through_writerReply g)
    show Accounted D _ [] as (n + (State.writerReply g).passed)
    rw [hone]
    exact hold_accounted hdone t g

theorem advance_accounted {w : Writer T} (h : Accounted D s (w :: rest) as n) :
    Accounted D (s.advance w).1 rest as (n + passedIn (s.advance w).2.toList) := by
  obtain ⟨l, us, m, m', hwaiting, hrest, hb⟩ := h.billed
  unfold State.advance
  cases hrest with
  | cons hw hrest =>
    rcases writer_accounted (t := w.thread) (.inr hw) h.of ⟨l, us, m, _, hwaiting, hrest, hb⟩
      with ⟨l', ns, task', hrun, hmore⟩ | ⟨l', ns, hrun, hdone⟩
    · rw [State.run_eq hrun]
      exact hmore _ rfl
    · rw [State.run_eq hrun]
      have hone : passedIn [⟨w.thread, State.writerReply w.guard, w.log ++ Note.lines ns⟩] = 1 := by
        unfold passedIn
        rw [List.countP_singleton]
        exact if_pos (through_writerReply w.guard)
      show Accounted D _ rest as (n + passedIn [⟨w.thread, State.writerReply w.guard, w.log ++ Note.lines ns⟩])
      rw [hone]
      exact hold_accounted hdone w.thread w.guard

theorem advanceEach_accounted (ws : List (Writer T)) (done : List Finished)
    (h : Accounted D s ws as (n + passedIn done)) :
    Accounted D (advanceEach s done ws).1 [] as (n + passedIn (advanceEach s done ws).2) := by
  induction ws generalizing s done with
  | nil => exact h
  | cons w ws ih =>
    have h' := advance_accounted h
    rw [Nat.add_assoc] at h'
    unfold advanceEach at ih ⊢
    rw [List.foldl_cons]
    refine ih _ ?_
    unfold passedIn at h' ⊢
    rw [List.countP_append]
    exact h'

theorem advanceAll_accounted (h : Accounted D s [] as n) :
    Accounted D s.advanceAll.1 [] as (n + passedIn s.advanceAll.2) := by
  obtain ⟨l, us, m, m', hwaiting, hrest, hb⟩ := h.billed
  refine advanceEach_accounted s.waiting [] ⟨h.of, l, us, m', m, hrest, hwaiting, ?_⟩
  rw [Nat.add_comm m']
  exact hb

theorem settle_accounted (k : Nat) (h : Accounted D s [] as n) :
    Accounted D (s.settle k).1 [] as (n + passedIn (s.settle k).2) := by
  induction k generalizing s n with
  | zero => exact h
  | succ k ih =>
    have h' := ih (advanceAll_accounted h)
    unfold State.settle
    show Accounted D (s.advanceAll.1.settle k).1 [] as (n + passedIn (s.advanceAll.2 ++ (s.advanceAll.1.settle k).2))
    unfold passedIn at h' ⊢
    rw [List.countP_append, ← Nat.add_assoc]
    exact h'

/-! ## Any operation -/

theorem Accounted.indexed (h : Accounted D s rest as n) (t : Thread) : Accounted D (s.indexFor t).1 rest as n :=
  h.same (alike_indexFor s t).lock (alike_indexFor s t).waiting (s.book_indexFor t)

theorem Accounted.flushed (h : Accounted D s rest as n) (t : Thread) (hl : s'.lock = s.lock)
    (hw : s'.waiting = s.waiting) (hb : s'.team.book = s.team.book.flush t) : Accounted D s' rest as n := by
  obtain ⟨l, us, m, m', hwaiting, hrest, hbilled⟩ := h.billed
  refine ⟨by rw [hl]; exact h.of, l.flush t, us, m, m', by rw [hw]; exact hwaiting, hrest, ?_⟩
  rw [hb]
  exact hbilled.flush t

theorem drop_accounted (h : Accounted D s [] as n) (g : Guard) : Accounted D (s.dropGuard t g).1 [] as n := by
  have hs : Accounted D { s with guards := s.guards.erase g } [] as n := h.same rfl rfl rfl
  unfold State.dropGuard
  cases g.kind with
  | read => exact leaveMany_accounted 1 (hs.indexed t) _
  | write => exact unblock_accounted hs

theorem tally_accounted (h : Accounted D s [] as n) (op : Tally) : Accounted D (s.perform t (.tally op)).1 [] as n := by
  cases op with
  | flush => exact h.flushed t rfl rfl rfl
  | _ => exact h

theorem exit_accounted (h : Accounted D s [] as n) : Accounted D (s.perform t .exit).1 [] as n := by
  by_cases ht : s.team.alive.contains t = true
  · exact h.flushed t rfl rfl (by simp only [State.perform, Team.exit, if_pos ht]; rfl)
  · exact h.same rfl rfl (by simp only [State.perform, Team.exit, if_neg ht])

theorem onStripes_accounted {f : Array Word → State L T × Reply} (h : Accounted D s [] as n)
    (hf : ∀ ws, Lock.stripes? s.lock = some ws → Accounted D (f ws).1 [] as n) :
    Accounted D (s.onStripes f).1 [] as n := by
  unfold State.onStripes
  split
  · rename_i ws hws
    exact hf ws hws
  · exact h

theorem read_accounted (h : Accounted D s [] as n) (g : String) :
    Accounted D (s.perform t (.read g)).1 [] (as ++ s.answersTo t (.read g)) n := by
  unfold State.answersTo
  rw [answers_one]
  unfold State.perform
  have hi := h.indexed t
  generalize s.indexFor t = e at hi
  obtain ⟨s₁, i⟩ := e
  obtain ⟨s', v, hs, h', hv⟩ := enterOnce_accounted (t := t) hi i
  simp only [hs]
  rcases hv with rfl | rfl | ⟨f, rfl⟩
  · exact h'.same rfl rfl rfl
  · exact h'
  · exact h'

/-- To attempt nothing takes no index. -/
theorem withIndex_accounted (h : Accounted D s [] as n) (k : Option Nat) :
    Accounted D (s.withIndex t k fun s i => s.enter t i k).1 [] (as ++ s.answersTo t (.enter k)) n := by
  unfold State.withIndex
  split
  · show Accounted D s [] (as ++ []) n
    rw [List.append_nil]
    exact h
  · exact enter_accounted (h.indexed t) _ k

theorem perform_accounted (h : Accounted D s [] as n) (op : Op) : Accounted D (s.perform t op).1 []
    (as ++ s.answersTo t op) (n + if op.blocks then (s.perform t op).2.1.passed else 0) := by
  -- most operations attempt nothing
  have still : ∀ {s' : State L T}, Accounted D s' [] as n → Accounted D s' [] (as ++ []) (n + 0) := by
    intro s' h'
    rw [List.append_nil]
    exact h'
  cases op with
  | enter k => exact withIndex_accounted h k
  | leave k =>
    refine still ?_
    show Accounted D (s.withIndex t (some k) fun s i => s.leaveMany t i k).1 [] as n
    unfold State.withIndex
    split
    · exact leaveMany_accounted k h _
    · exact leaveMany_accounted k (h.indexed t) _
  | block =>
    show Accounted D _ [] (as ++ []) _
    rw [List.append_nil]
    exact block_accounted h none
  | unblock => exact still (unblock_accounted h)
  | read g => exact read_accounted h g
  | write g =>
    show Accounted D _ [] (as ++ []) _
    rw [List.append_nil]
    exact block_accounted h (some g)
  | drop g =>
    refine still ?_
    cases hg : s.guard? t g with
    | none =>
      simp only [State.perform, hg]
      exact h
    | some g =>
      simp only [State.perform, hg]
      exact drop_accounted h g
  | formatGuard g f =>
    refine still ?_
    cases hg : s.guard? t g <;> simp only [State.perform, hg] <;> exact h
  | tally op => exact still (tally_accounted h op)
  | exit => exact still (exit_accounted h)
  | enterAt i k =>
    show Accounted D (s.onStripes fun _ => s.enter t i k).1 [] (as ++ if _ then _ else []) n
    unfold State.onStripes
    cases Lock.stripes? s.lock with
    | none => exact still h
    | some ws => exact enter_accounted h i k
  | leaveAt i k => exact still (onStripes_accounted h fun _ _ => leaveMany_accounted k h i)
  | readersAt k => exact still (onStripes_accounted h fun _ _ => h)
  | stripeOf i => exact still (onStripes_accounted h fun _ _ => h)
  | stripeCount => exact still (onStripes_accounted h fun _ _ => h)
  | ownStripe => exact still (onStripes_accounted h fun _ _ => h.same rfl rfl rfl)
  | index => exact still (h.same rfl rfl rfl)
  | nextIndex => exact still (h.same rfl rfl rfl)
  | _ => exact still h

theorem consider_accounted (h : Accounted D s [] as n) (op : Op) : Accounted D (s.consider t op).1 [] as n :=
  h.same (alike_consider s t op).lock (alike_consider s t op).waiting (s.book_consider t op)

theorem attempt_accounted (strict : Bool) (h : Accounted D s [] as n) (op : Op) :
    Accounted D (s.attemptOf strict t op).1 [] (as ++ s.answersOf strict t op)
      (n + if op.blocks then (s.attemptOf strict t op).2.1.passed else 0) := by
  have hrefuse : Accounted D (s.refuse strict t op).1 [] as n := by
    unfold State.refuse
    split
    · exact h
    · exact consider_accounted h op
  unfold State.attemptOf State.answersOf
  generalize s.refuse strict t op = e at hrefuse
  obtain ⟨s₁, _ | r⟩ := e
  · refine perform_accounted ?_ op
    unfold State.begun
    split
    · exact hrefuse
    · exact hrefuse.same rfl rfl rfl
  · show Accounted D s₁ [] (as ++ []) (n + if op.blocks then Reply.passed (.refused r) else 0)
    rw [List.append_nil]
    split <;> exact hrefuse

theorem step_accounted (strict : Bool) (h : Accounted D s [] as n) (op : Op) :
    Accounted D (s.stepOf strict t op).1 [] (as ++ s.answersOf strict t op)
      (n + (s.stepOf strict t op).2.blocks op) := by
  have h' := settle_accounted ((s.attemptOf strict t op).1.waiting.length + 1) (attempt_accounted (t := t) strict h op)
  have hsort : ∀ fs : List Finished, passedIn (fs.mergeSort State.byThread) = passedIn fs :=
    fun fs => (List.mergeSort_perm fs _).countP_eq _
  unfold Report.blocks State.stepOf
  rw [hsort, ← Nat.add_assoc]
  exact h'

theorem run_accounted (strict : Bool) (ops : List (Thread × Op)) (h : Accounted D s [] as n) :
    Accounted D (s.runOf strict ops).1 [] (as ++ s.answersIn strict ops) (n + blocksIn ops (s.runOf strict ops).2) := by
  induction ops generalizing s as n with
  | nil =>
    show Accounted D s [] (as ++ []) (n + 0)
    rw [List.append_nil]
    exact h
  | cons e ops ih =>
    obtain ⟨t, op⟩ := e
    have h' := ih (step_accounted (t := t) strict h op)
    rw [List.append_assoc, Nat.add_assoc] at h'
    exact h'

/-! ## In the end, and at every moment -/

/-- Nobody waits, and all threads have flushed their counters or ended. -/
def Settled (s : State L T) : Prop := s.waiting = [] ∧ ∀ t, s.team.book.ownOf t = .empty

/-- The global counters show so many attempts answered and so many words taken, and all of them when all is settled. -/
structure ShowsDues (D : Dues L T) (s : State L T) (answers : List Bool) (taken : Nat) : Prop where
  size : ∀ name, (s.team.book.global.size name).count = answers.count true * D.admission.countP (Sample.isSize name) +
    answers.count false * D.refusal.countP (Sample.isSize name) + taken * D.session.countP (Sample.isSize name)
  event : ∀ name, (s.team.book.global.event name).count = answers.count true * D.admission.count (.event name) +
    answers.count false * D.refusal.count (.event name) + taken * D.session.count (.event name)
  /-- Without samples a size is empty. -/
  empty : ∀ name, (s.team.book.global.size name).count = 0 → s.team.book.global.size name = .empty

theorem Accounted.shows (h : Accounted D s [] as n) :
    ∃ bs k, ShowsDues D s bs k ∧ (Settled s → bs = as ∧ k = n * D.size) := by
  obtain ⟨l, us, m, m', hwaiting, hrest, hbilled⟩ := h.billed
  obtain ⟨xs, bs, k, hglobal, hbill, hall⟩ := hbilled.global
  refine ⟨bs, k, ?_, ?_⟩
  · refine ⟨?_, ?_, ?_⟩
    · intro name
      rw [hglobal]
      exact hbill.size name
    · intro name
      rw [hglobal]
      exact hbill.event name
    · intro name hcount
      rw [hglobal] at hcount ⊢
      exact ((Stats.shows_of xs).size name).eq_empty hcount
  intro hsettled
  obtain ⟨rfl, rfl⟩ := hall hsettled.2
  rw [hsettled.1] at hwaiting
  cases hwaiting
  cases hrest
  exact ⟨rfl, rfl⟩

theorem accounted_run (D : Dues L T) {l : L} (hl : D.Of l) (strict : Bool) (ops : List (Thread × Op)) :
    Accounted D ((State.start l).runOf strict ops).1 [] ((State.start l).answersIn strict ops)
      (blocksIn ops ((State.start l).runOf strict ops).2) := by
  have h := run_accounted strict ops (accounted_start hl)
  rw [List.nil_append, Nat.zero_add] at h
  exact h

end

/-- Of a lock made of `n` words. -/
structure WordAccounts (n : Nat) (s : State L T) (answers : List Bool) (blocks : Nat) : Prop where
  reads : Settled s → s.team.book.global.readCasFailures.count = answers.length
  rejected : Settled s → s.team.book.global.readRejected.count = answers.count false
  swaps : Settled s → s.team.book.global.writeCasFailures.count = n * blocks
  polls : Settled s → s.team.book.global.writeWaitYields.count = n * blocks
  bounded : s.team.book.global.readRejected.count ≤ s.team.book.global.readCasFailures.count
  /-- The reject rate is written as at most 1. -/
  rate : Stats.share s.team.book.global.readRejected.count s.team.book.global.readCasFailures.count = "NaN" ∨
    ∃ m ≤ 10000, Stats.share s.team.book.global.readRejected.count s.team.book.global.readCasFailures.count =
      Decimal.pointed 4 m

/-- Of a counter and its flag. -/
structure FlagAccounts (s : State L T) (answers : List Bool) (blocks : Nat) : Prop where
  rejected : Settled s → s.team.book.global.readRejected.count = answers.count false
  polls : Settled s → s.team.book.global.writeWaitYields.count = blocks
  noReads : s.team.book.global.readCasFailures = .empty
  noSwaps : s.team.book.global.writeCasFailures = .empty
  /-- The reject rate is of nothing. -/
  rate : Stats.share s.team.book.global.readRejected.count s.team.book.global.readCasFailures.count =
    if s.team.book.global.readRejected.count = 0 then "NaN" else "inf"

theorem wordAccounts {W : Worded L T} (N : W.Notes) {s : State L T} {as : List Bool} {n : Nat}
    (h : Accounted N.dues s [] as n) : WordAccounts W.size s as n := by
  obtain ⟨bs, k, hshows, hall⟩ := h.shows
  have hreads : s.team.book.global.readCasFailures.count = bs.length := by
    refine (hshows.size .readCasFailures).trans ?_
    show bs.count true * 1 + bs.count false * 1 + k * 0 = bs.length
    rw [Nat.mul_one, Nat.mul_one]
    exact bs.count_true_add_count_false
  have hrejected : s.team.book.global.readRejected.count = bs.count false := by
    refine (hshows.event .readRejected).trans ?_
    show bs.count true * 0 + bs.count false * 1 + k * 0 = bs.count false
    omega
  have htaken : ∀ name, Sample.admission.countP (Sample.isSize name) = 0 →
      Sample.refusal.countP (Sample.isSize name) = 0 → Sample.session.countP (Sample.isSize name) = 1 → Settled s →
      (s.team.book.global.size name).count = W.size * n := by
    intro name hadmission hrefusal hsession hs
    have hcount := hshows.size name
    simp only [Worded.Notes.dues, hadmission, hrefusal, hsession] at hcount
    rw [hcount, (hall hs).2]
    show bs.count true * 0 + bs.count false * 0 + n * W.size * 1 = W.size * n
    rw [Nat.mul_comm n]
    omega
  have hbounded : s.team.book.global.readRejected.count ≤ s.team.book.global.readCasFailures.count := by
    rw [hreads, hrejected]
    exact List.count_le_length
  refine ⟨?_, ?_, htaken .writeCasFailures rfl rfl rfl, htaken .writeWaitYields rfl rfl rfl, hbounded,
    Stats.share_of_le hbounded⟩
  · intro hs
    rw [hreads, (hall hs).1]
  · intro hs
    rw [hrejected, (hall hs).1]

theorem flagAccounts {s : State CountedLock CountedLock.Task} {as : List Bool} {n : Nat}
    (h : Accounted CountedLock.dues s [] as n) : FlagAccounts s as n := by
  obtain ⟨bs, k, hshows, hall⟩ := h.shows
  have hnone : ∀ name, CountedLock.refusal.countP (Sample.isSize name) = 0 →
      CountedLock.session.countP (Sample.isSize name) = 0 → s.team.book.global.size name = .empty := by
    intro name hrefusal hsession
    refine hshows.empty name ?_
    have hcount := hshows.size name
    simp only [CountedLock.dues, hrefusal, hsession, List.countP_nil] at hcount
    exact hcount
  have hreads : s.team.book.global.readCasFailures = .empty := hnone .readCasFailures rfl rfl
  refine ⟨?_, ?_, hreads, hnone .writeCasFailures rfl rfl, ?_⟩
  · intro hs
    refine (hshows.event .readRejected).trans ?_
    show bs.count true * 0 + bs.count false * 1 + k * 0 = as.count false
    rw [(hall hs).1]
    omega
  · intro hs
    refine (hshows.size .writeWaitYields).trans ?_
    show bs.count true * 0 + bs.count false * 0 + k * 1 = n
    rw [(hall hs).2]
    show bs.count true * 0 + bs.count false * 0 + n * 1 * 1 = n
    omega
  · rw [hreads]
    exact Stats.share_zero _

/-- In every run of the lock from the start, be it strict, as the program's are, or free. -/
def KeepsAccounts (P : State L T → List Bool → Nat → Prop) (l : L) : Prop :=
  (State.start l).Programmed ∧ ∀ strict ops, P ((State.start l).runOf strict ops).1
    ((State.start l).answersIn strict ops) (blocksIn ops ((State.start l).runOf strict ops).2)

/-- When all is settled the counters show what the lock did, and at no moment more refusals than attempts. -/
theorem locks_accounted : (∀ n, KeepsAccounts (WordAccounts (n + 1)) (StripedLock.new n)) ∧
    KeepsAccounts (WordAccounts 1) RetryLock.new ∧
    (∀ policy, KeepsAccounts (WordAccounts 1) (PatientLock.new policy)) ∧
    KeepsAccounts FlagAccounts CountedLock.new := by
  refine ⟨?_, ?_, ?_, ?_⟩
  · intro n
    refine ⟨State.programmed _, ?_⟩
    intro strict ops
    have hsize : (StripedLock.new n).words.size = n + 1 := by simp [StripedLock.new]
    exact wordAccounts (StripedLock.notes n) (accounted_run _ hsize strict ops)
  · refine ⟨State.programmed _, ?_⟩
    intro strict ops
    exact wordAccounts RetryLock.notes (accounted_run _ trivial strict ops)
  · intro policy
    refine ⟨State.programmed _, ?_⟩
    intro strict ops
    exact wordAccounts (PatientLock.notes policy) (accounted_run _ rfl strict ops)
  · refine ⟨State.programmed _, ?_⟩
    intro strict ops
    exact flagAccounts (accounted_run _ trivial strict ops)

/-- A writer waits for a reader of the second stripe, takes both, and another reader is refused meanwhile. -/
theorem locks_accounted_settled :
    let ops : List (Thread × Op) := [(0, .enterAt ⟨1⟩ none), (1, .block), (2, .enterAt ⟨0⟩ none), (0, .leaveAt ⟨1⟩ 1),
      (0, .exit), (1, .tally .flush), (2, .exit)]
    let s := ((State.start (StripedLock.new 1)).runOf true ops).1
    Settled s ∧ s.team.book.global.readCasFailures.count = 2 ∧ s.team.book.global.readRejected.count = 1 ∧
      s.team.book.global.writeWaitYields.count = 2 := by
  intro ops s
  have hsettled : Settled s := by
    refine ⟨by decide +kernel, ?_⟩
    have hnone : s.team.book.own.entries = [] := by decide +kernel
    intro t
    unfold Book.ownOf Table.get?
    rw [hnone]
    rfl
  have h := (locks_accounted.1 1).2 true ops
  refine ⟨hsettled, (h.reads hsettled).trans ?_, (h.rejected hsettled).trans ?_, (h.polls hsettled).trans ?_⟩
  · decide +kernel
  · decide +kernel
  · decide +kernel

end BusyWait.LockStep.Locks
