import BusyWait.Proofs.Lock.Beside

/-
  BusyWait.Proofs.Lock.Loans — who has to give back what, stripe by stripe.

  A thread acquires and releases under its own index, which it keeps until it ends; an
  index that is named is a borrower of its own. The tab has every acquisition and every
  release of a run. As long as no borrower has given back more than it has taken
  (`Paired`), every stripe counts what is out on it (`Square`).

  - `Square.perform`: any operation, of a borrower who returns no more than is his.
  - `Square.run`: the run, with its tab.
  - `stripes_accounted`: all that holds of the stripes of a lock.
-/

namespace BusyWait.LockStep.Locks

open StripedLock (Task Counted Apart)

/-! ## Borrowers -/

/-- Who has to give back: a thread in one of its lives, or an index that was named. -/
inductive Borrower where
  | thread (t : Thread) (life : Nat)
  | index (i : Index)
  deriving DecidableEq

/-- An acquisition or a release, and the index for which it was made. -/
abbrev Loan := Borrower × Index

/-- What a run has done for readers. -/
structure Tab where
  /-- How often each thread has ended. -/
  lives : Thread → Nat
  taken : List Loan
  returned : List Loan

def Tab.empty : Tab := ⟨fun _ => 0, [], []⟩

def Op.borrower (lives : Thread → Nat) (t : Thread) : Op → Borrower
  | .enterAt i _ | .leaveAt i _ => .index i
  | _ => .thread t (lives t)

namespace State

variable {L T : Type} [Lock L T]

/-- How many releases an operation is to make. -/
def releasesTo (s : State L T) (t : Thread) : Op → Nat
  | .leave n | .leaveAt _ n => n
  | .drop g =>
    match s.guard? t g with
    | some ⟨_, _, .read⟩ => 1
    | _ => 0
  | _ => 0

/-- An operation that is refused makes none. -/
def releasesOf (strict : Bool) (s : State L T) (t : Thread) (op : Op) : Nat :=
  match s.refuse strict t op with
  | (_, some _) => 0
  | (s, none) => (s.begun t op).releasesTo t op

/-- Who makes an operation, and the index for which it is made. -/
def loan (s : State L T) (a : Tab) (t : Thread) (op : Op) : Loan :=
  (op.borrower a.lives t, op.named.getD (s.own t))

end State

section
variable {L T : Type} [Lock L T]

namespace Tab

/-- The tab after one more operation. -/
def after (strict : Bool) (s : State L T) (a : Tab) (t : Thread) (op : Op) : Tab where
  lives u := if op = .exit ∧ (s.refuse strict t op).2 = none ∧ u = t then a.lives u + 1 else a.lives u
  taken := a.taken ++ .replicate ((s.answersOf strict t op).count true) (s.loan a t op)
  returned := a.returned ++ .replicate (s.releasesOf strict t op) (s.loan a t op)

def afterAll (strict : Bool) (s : State L T) (a : Tab) : List (Thread × Op) → Tab
  | [] => a
  | (t, op) :: ops => afterAll strict (s.stepOf strict t op).1 (a.after strict s t op) ops

end Tab

/-- How many of them are the borrower's. -/
def countOf (b : Borrower) (ls : List Loan) : Nat := ls.countP (·.1 = b)

/-- How many of them are on stripe `k` of `n + 1`. -/
def countOn (n k : Nat) (ls : List Loan) : Nat := ls.countP (·.2.slot (n + 1) = k)

/-- Nobody makes more releases than his own acquisitions. -/
def Paired (strict : Bool) (s : State L T) (a : Tab) : List (Thread × Op) → Prop
  | [] => True
  | (t, op) :: ops => countOf (op.borrower a.lives t) (a.returned) + s.releasesOf strict t op ≤
      countOf (op.borrower a.lives t) a.taken ∧
    Paired strict (s.stepOf strict t op).1 (a.after strict s t op) ops

instance decPaired (strict : Bool) :
    ∀ (s : State L T) (a : Tab) (ops : List (Thread × Op)), Decidable (Paired strict s a ops)
  | _, _, [] => inferInstanceAs (Decidable True)
  | s, a, (t, op) :: ops =>
    @instDecidableAnd _ _ _ (decPaired strict (s.stepOf strict t op).1 (a.after strict s t op) ops)

end

theorem countOn_append (n k m : Nat) (ls : List Loan) (x : Loan) :
    countOn n k (ls ++ .replicate m x) = countOn n k ls + if x.2.slot (n + 1) = k then m else 0 := by
  unfold countOn
  rw [List.countP_append, List.countP_replicate]
  simp only [decide_eq_true_eq]

theorem Op.borrower_cases (op : Op) (lives : Thread → Nat) (t : Thread) :
    op.named = none ∧ op.borrower lives t = .thread t (lives t) ∨
      ∃ i, op.named = some i ∧ op.borrower lives t = .index i := by
  cases op with
  | enterAt i k => exact .inr ⟨i, rfl, rfl⟩
  | leaveAt i k => exact .inr ⟨i, rfl, rfl⟩
  | _ => exact .inl ⟨rfl, rfl⟩

/-! ## The tab of a run -/

section
variable {n : Nat} {s s' : State StripedLock Task} {a : Tab} {t : Thread} {op : Op} {i : Index} {strict : Bool}

/-- Every stripe counts what is out on it. -/
structure Square (n : Nat) (s : State StripedLock Task) (a : Tab) : Prop where
  tidy : Tidy n (fun k => countOn n k a.taken - countOn n k a.returned) s
  within : a.returned.Subperm a.taken
  life : ∀ {t l i}, (.thread t l, i) ∈ a.taken → l ≤ a.lives t
  /-- A thread keeps the index with which it has acquired. -/
  own : ∀ {t i}, (.thread t (a.lives t), i) ∈ a.taken → s.kept t = some i
  index : ∀ {j i}, (.index j, i) ∈ a.taken → i = j

theorem square_start (n : Nat) : Square n (.start (StripedLock.new n)) .empty := by
  refine ⟨⟨⟨?_, ?_⟩, nofun⟩, .refl _, nofun, nofun, nofun⟩
  · simp [State.start, StripedLock.new]
  · intro k hk
    refine ⟨false, ?_⟩
    show ((StripedLock.new n).word k).Counts 0 false
    rw [StripedLock.word_new (by simpa [StripedLock.new] using hk)]
    exact Word.counts_free

theorem Square.drew (h : Square n s a) (hl : s'.lock = s.lock) (hw : s'.waiting = s.waiting) (hd : Drew s s' t) :
    Square n s' a :=
  ⟨h.tidy.same hl hw, h.within, h.life, fun hm => hd.kept (h.own hm), h.index⟩

theorem Tab.after_refused {s' : State StripedLock Task} {r : Refusal} (h : s.refuse strict t op = (s', some r))
    (a : Tab) : a.after strict s t op = a := by
  simp [Tab.after, State.answersOf, State.releasesOf, h]

/-- An operation that enters takes as much as it is answered, one that leaves returns as much as it is to. -/
theorem served_cases (hi : s.served? t op = some i) :
    (∃ k, (∀ w, op.served w = enterWord w k) ∧ op.tries = k.getD 1 ∧ s.releasesTo t op = 0) ∨
      ∃ m, (∀ w, op.served w = leaveWord w m) ∧ op.tries = 0 ∧ s.releasesTo t op = m := by
  cases op with
  | enter k => exact .inl ⟨k, fun _ => rfl, rfl, rfl⟩
  | enterAt j k => exact .inl ⟨k, fun _ => rfl, rfl, rfl⟩
  | read g => exact .inl ⟨none, fun _ => rfl, rfl, rfl⟩
  | leave m => exact .inr ⟨m, fun _ => rfl, rfl, rfl⟩
  | leaveAt j m => exact .inr ⟨m, fun _ => rfl, rfl, rfl⟩
  | drop g =>
    refine .inr ⟨1, fun _ => rfl, rfl, ?_⟩
    rcases hg : s.guard? t g with _ | ⟨v, name, _ | _⟩
    · simp only [State.served?, hg] at hi
      cases hi
    · simp only [State.releasesTo, hg]
    · simp only [State.served?, hg] at hi
      cases hi
  | _ => cases hi

theorem unserved (hi : s.served? t op = none) : s.answersTo t op = [] ∧ s.releasesTo t op = 0 := by
  cases op with
  | drop g =>
    refine ⟨rfl, ?_⟩
    rcases hg : s.guard? t g with _ | ⟨v, name, _ | _⟩
    · simp only [State.releasesTo, hg]
    · simp only [State.served?, hg] at hi
      cases hi
    · simp only [State.releasesTo, hg]
  | _ => first | exact ⟨rfl, rfl⟩ | cases hi

/-- The index for which an operation is made is that of its loan. -/
theorem named_of_served (hi : s.served? t op = some i) : op.named.getD (s.own t) = i := by
  cases op with
  | drop g =>
    rcases hg : s.guard? t g with _ | ⟨v, name, _ | _⟩ <;> simp only [State.served?, hg] at hi
    · cases hi
    · exact Option.some.inj hi
    · cases hi
  | _ => first | exact Option.some.inj hi | cases hi

end

/-! ## The words of those who enter and leave -/

theorem counts_enterWord {w : Word} {m : Nat} {b : Bool} (h : w.Counts m b) (k : Option Nat) :
    (enterWord w k).1.Counts (m + (w.attempts (k.getD 1)).2.1.count true) b ∧
      (enterWord w k).2 ≠ .fault .noReaders := by
  cases k with
  | none =>
    show w.tryEnter.1.Counts (m + (w.attempts 1).2.1.count true) b ∧ Reply.ofEntry w.tryEnter.2 ≠ _
    simp only [Word.attempts]
    rcases h.tryEnter with ⟨htry, h'⟩ | htry | htry <;> rw [htry]
    · refine ⟨h', ?_⟩
      intro he
      cases he
    · refine ⟨h, ?_⟩
      intro he
      cases he
    · refine ⟨h, ?_⟩
      intro he
      cases he
  | some k =>
    obtain ⟨hc, hf⟩ := h.attempts k
    refine ⟨hc, ?_⟩
    show Reply.ofAttempts 0 (w.attempts k).2 ≠ _
    generalize (w.attempts k).2 = e at hf
    obtain ⟨bs, _ | f⟩ := e
    · intro he
      cases he
    · obtain rfl := hf f rfl
      intro he
      cases he

theorem counts_leaveWord {w : Word} {m k : Nat} {b : Bool} (h : w.Counts (m + k) b) :
    (leaveWord w k).1.Counts m b ∧ (leaveWord w k).2 = .done := by
  obtain ⟨hc, hnone⟩ := h.releases
  exact ⟨hc, congrArg Reply.ofReleases hnone⟩

/-! ## One operation -/

section
variable {n : Nat} {s : State StripedLock Task} {a : Tab} {t : Thread} {op : Op} {i : Index} {strict : Bool}

/-- The tab after an operation that is not refused, of the state that it finds. -/
theorem after_begun (h : s.refuse strict t op = ((s.consider t op).1, none)) (a : Tab) : a.after strict s t op =
    ⟨fun u => if op = .exit ∧ u = t then a.lives u + 1 else a.lives u,
      a.taken ++ .replicate (((s.ready t op).answersTo t op).count true) ((s.ready t op).loan a t op),
      a.returned ++ .replicate ((s.ready t op).releasesTo t op) ((s.ready t op).loan a t op)⟩ := by
  have hloan : (s.ready t op).loan a t op = s.loan a t op := by
    unfold State.loan
    rw [(s.alike_ready t op).own]
  rw [hloan]
  simp only [Tab.after, State.answersOf, State.releasesOf, h, true_and]
  rfl

/-- All that the borrower has taken he has taken with one index. -/
theorem Square.countOf_taken (h : Square n s a) (hi : s.served? t op = some i) :
    countOf (op.borrower a.lives t) a.taken ≤ a.taken.count (op.borrower a.lives t, i) := by
  unfold countOf List.count
  refine List.countP_mono_left ?_
  rintro ⟨b, j⟩ hmem hb
  obtain rfl : b = op.borrower a.lives t := by simpa using hb
  have hj : j = i := by
    have hown : ∀ {j}, (.thread t (a.lives t), j) ∈ a.taken → j = s.own t :=
      fun hm => (own_of_kept (h.own hm)).symm
    cases op with
    | enterAt k _ => exact (h.index hmem).trans (Option.some.inj hi)
    | leaveAt k _ => exact (h.index hmem).trans (Option.some.inj hi)
    | drop g =>
      rcases hg : s.guard? t g with _ | ⟨v, name, _ | _⟩ <;> simp only [State.served?, hg] at hi
      · cases hi
      · exact (hown hmem).trans (Option.some.inj hi)
      · cases hi
    | _ => first | exact (hown hmem).trans (Option.some.inj hi) | cases hi
  rw [hj]
  exact beq_self_eq_true _

/-- The counts of a stripe whose word counts as the tab says. -/
theorem Square.put (h : Square n s a) {k : Nat} {w : Word} {f : Nat → Nat} {l : StripedLock}
    (hl : l = s.lock.put k w) (hw : k < n + 1 → ∃ b, w.Counts (f k) b)
    (hf : ∀ j, j ≠ k → f j = countOn n j a.taken - countOn n j a.returned) : Counted n f l := by
  subst hl
  refine ⟨(StripedLock.size_put _ _ _).trans h.tidy.counted.size, ?_⟩
  intro j hj
  by_cases hjk : j = k
  · subst hjk
    rw [StripedLock.word_put _ _ _ _ (h.tidy.counted.size ▸ hj), if_pos rfl]
    exact hw hj
  · rw [StripedLock.word_put_of_ne _ (Ne.symm hjk), hf j hjk]
    exact h.tidy.counted.word j hj

theorem Square.counts (h : Square n s a) (i : Index) : ∃ b, (s.lock.word (i.slot (n + 1))).Counts
    (countOn n (i.slot (n + 1)) a.taken - countOn n (i.slot (n + 1)) a.returned) b :=
  h.tidy.counted.word _ (i.slot_lt (Nat.succ_pos n))

theorem Square.countOn_le (h : Square n s a) (k : Nat) : countOn n k a.returned ≤ countOn n k a.taken :=
  h.within.countP_le _

/-- Those who enter are counted where they entered. -/
theorem Square.enters (h : Square n s a) {s' : State StripedLock Task} {b : Borrower} {k : Option Nat} {m : Nat}
    (hm : m = ((s.lock.word (i.slot (n + 1))).attempts (k.getD 1)).2.1.count true)
    (hl : s'.lock = s.lock.put (i.slot (n + 1)) (enterWord (s.lock.word (i.slot (n + 1))) k).1)
    (hw : s'.waiting = s.waiting) (hd : Drew s s' t)
    (hb : (b = .thread t (a.lives t) ∧ (0 < m → s'.kept t = some i)) ∨ b = .index i) :
    Square n s' { a with taken := a.taken ++ .replicate m (b, i) } := by
  obtain ⟨c, hc⟩ := h.counts i
  have hle := h.countOn_le
  have hwithin : a.returned.Subperm (a.taken ++ .replicate m (b, i)) :=
    h.within.trans (List.sublist_append_left _ _).subperm
  have hnew : ∀ {x : Loan}, x ∈ a.taken ++ .replicate m (b, i) → x ∈ a.taken ∨ 0 < m ∧ x = (b, i) := by
    intro x hx
    rcases List.mem_append.mp hx with hx | hx
    · exact .inl hx
    · obtain ⟨hm, hx⟩ := List.mem_replicate.mp hx
      exact .inr ⟨Nat.pos_of_ne_zero hm, hx⟩
  refine ⟨⟨h.put hl ?_ ?_, by rw [hw]; exact h.tidy.writers⟩, hwithin, ?_, ?_, ?_⟩
  · intro _
    refine ⟨c, ?_⟩
    have hcount := (counts_enterWord hc k).1
    rw [← hm] at hcount
    show Word.Counts _ (countOn n _ (a.taken ++ _) - countOn n _ a.returned) c
    rw [countOn_append, if_pos rfl, Nat.sub_add_comm (hle _)]
    exact hcount
  · intro j hj
    show countOn n j (a.taken ++ _) - _ = _
    rw [countOn_append, if_neg (Ne.symm hj), Nat.add_zero]
  · intro u l j hj
    rcases hnew hj with hj | ⟨-, hj⟩
    · exact h.life hj
    · obtain ⟨rfl, -⟩ := Prod.mk.inj hj
      rcases hb with ⟨hb, -⟩ | hb
      · cases hb
        exact Nat.le_refl _
      · cases hb
  · intro u j hj
    rcases hnew hj with hj | ⟨hpos, hj⟩
    · exact hd.kept (h.own hj)
    · obtain ⟨hbu, rfl⟩ := Prod.mk.inj hj
      rw [← hbu] at hb
      rcases hb with ⟨hb, hkept⟩ | hb
      · obtain ⟨rfl, -⟩ := Borrower.thread.inj hb
        exact hkept hpos
      · cases hb
  · intro j k hj
    rcases hnew hj with hj | ⟨-, hj⟩
    · exact h.index hj
    · obtain ⟨rfl, rfl⟩ := Prod.mk.inj hj
      rcases hb with ⟨hb, -⟩ | hb
      · cases hb
      · exact (Borrower.index.inj hb).symm

/-- Those who leave had been there. -/
theorem Square.leaves (h : Square n s a) {s' : State StripedLock Task} {b : Borrower} {m : Nat}
    (hm : a.returned.count (b, i) + m ≤ a.taken.count (b, i))
    (hl : s'.lock = s.lock.put (i.slot (n + 1)) (leaveWord (s.lock.word (i.slot (n + 1))) m).1)
    (hw : s'.waiting = s.waiting) (hd : Drew s s' t) :
    Square n s' { a with returned := a.returned ++ .replicate m (b, i) } ∧
      (leaveWord (s.lock.word (i.slot (n + 1))) m).2 = .done := by
  have hwithin : (a.returned ++ .replicate m (b, i)).Subperm a.taken := by
    refine List.subperm_ext_iff.mpr ?_
    intro x _
    rw [List.count_append, List.count_replicate]
    by_cases hx : (b, i) = x
    · subst hx
      simpa using hm
    · simpa [hx] using h.within.count_le x
  have hle : countOn n (i.slot (n + 1)) (a.returned ++ .replicate m (b, i)) ≤ countOn n (i.slot (n + 1)) a.taken :=
    hwithin.countP_le _
  rw [countOn_append, if_pos rfl] at hle
  obtain ⟨c, hc⟩ := h.counts i
  have hsplit : countOn n (i.slot (n + 1)) a.taken - countOn n (i.slot (n + 1)) a.returned =
      countOn n (i.slot (n + 1)) a.taken - (countOn n (i.slot (n + 1)) a.returned + m) + m := by omega
  rw [hsplit] at hc
  obtain ⟨hcount, hreply⟩ := counts_leaveWord hc
  refine ⟨⟨⟨h.put hl ?_ ?_, by rw [hw]; exact h.tidy.writers⟩, hwithin, h.life, fun hm => hd.kept (h.own hm),
    h.index⟩, hreply⟩
  · intro _
    refine ⟨c, ?_⟩
    show Word.Counts _ (countOn n _ a.taken - countOn n _ (a.returned ++ _)) c
    rw [countOn_append, if_pos rfl]
    exact hcount
  · intro j hj
    show _ - countOn n j (a.returned ++ _) = _
    rw [countOn_append, if_neg (Ne.symm hj), Nat.add_zero]

/-- A thread that ends keeps nothing, and is another when it comes back. -/
theorem Square.exit (h : Square n s a) (t : Thread) :
    Square n (s.perform t .exit).1 { a with lives := fun u => if u = t then a.lives u + 1 else a.lives u } := by
  have hlife : ∀ {u l i}, (.thread u l, i) ∈ a.taken → l ≤ if u = t then a.lives u + 1 else a.lives u := by
    intro u l i hm
    have := h.life hm
    split <;> omega
  refine ⟨h.tidy.same rfl rfl, h.within, hlife, ?_, h.index⟩
  intro u i hm
  by_cases hu : u = t
  · simp only [hu, if_true] at hm
    have := h.life hm
    omega
  · simp only [if_neg hu] at hm
    exact perform_kept h.tidy.counted.size (h.own hm) fun _ => hu

/-- An operation that is begun, of a borrower who returns no more than is his. -/
theorem Square.perform (h : Square n s a)
    (hp : countOf (op.borrower a.lives t) a.returned + s.releasesTo t op ≤ countOf (op.borrower a.lives t) a.taken) :
    Square n (s.perform t op).1
      ⟨fun u => if op = .exit ∧ u = t then a.lives u + 1 else a.lives u,
        a.taken ++ .replicate ((s.answersTo t op).count true) (s.loan a t op),
        a.returned ++ .replicate (s.releasesTo t op) (s.loan a t op)⟩ ∧
      (s.perform t op).2.1 ≠ .fault .noReaders := by
  cases hi : s.served? t op with
  | none =>
    obtain ⟨ha, hr⟩ := unserved hi
    have htidy := h.tidy.perform hi
    refine ⟨?_, htidy.2⟩
    rw [ha, hr]
    simp only [List.count_nil, List.replicate_zero, List.append_nil]
    by_cases hop : op = .exit
    · subst hop
      simpa only [true_and] using h.exit t
    · simp only [hop, false_and, if_false]
      exact ⟨htidy.1, h.within, h.life,
        fun hm => perform_kept h.tidy.counted.size (h.own hm) fun he => absurd he hop, h.index⟩
  | some i =>
    have hop : op ≠ .exit := by
      rintro rfl
      cases hi
    have hloan : s.loan a t op = (op.borrower a.lives t, i) := congrArg (Prod.mk _) (named_of_served hi)
    obtain ⟨s', hrun, hs'⟩ := perform_served h.tidy.counted.size hi
    rw [hrun, hloan]
    simp only [hop, false_and, if_false]
    rcases served_cases hi with ⟨k, hserved, htries, hr⟩ | ⟨m, hserved, htries, hr⟩
    · have hlock := hs'.lock
      rw [hserved] at hlock ⊢
      have hanswers := hs'.answers
      rw [htries] at hanswers
      obtain ⟨c, hc⟩ := h.counts i
      refine ⟨?_, (counts_enterWord hc k).2⟩
      rw [hr, List.replicate_zero, List.append_nil]
      refine h.enters (congrArg (List.count true) hanswers) hlock hs'.waiting hs'.drew ?_
      rcases op.borrower_cases a.lives t with ⟨hnamed, hb⟩ | ⟨j, hnamed, hb⟩
      · refine .inl ⟨hb, fun hpos => hs'.kept hnamed ?_⟩
        intro hnil
        rw [hnil] at hpos
        exact absurd hpos (Nat.lt_irrefl 0)
      · have hj := named_of_served hi
        rw [hnamed] at hj
        exact .inr (hb.trans (congrArg _ hj))
    · have hlock := hs'.lock
      rw [hserved] at hlock ⊢
      have hnone : s.answersTo t op = [] := by
        rw [hs'.answers, htries]
        rfl
      rw [hnone, hr]
      rw [hr] at hp
      have hcount : a.returned.count (op.borrower a.lives t, i) ≤ countOf (op.borrower a.lives t) a.returned := by
        refine List.countP_mono_left ?_
        intro x _ hx
        simpa using congrArg Prod.fst (eq_of_beq hx)
      have htaken := h.countOf_taken hi
      obtain ⟨hsquare, hreply⟩ :=
        h.leaves (b := op.borrower a.lives t) (m := m) (by omega) hlock hs'.waiting hs'.drew
      simp only [List.count_nil, List.replicate_zero, List.append_nil]
      refine ⟨hsquare, ?_⟩
      rw [hreply]
      exact nofun

end

/-! ## Every run -/

section
variable {n : Nat} {s : State StripedLock Task} {a : Tab} {t u : Thread} {op : Op} {i : Index} (strict : Bool)

theorem Square.attempt (h : Square n s a)
    (hp : countOf (op.borrower a.lives t) a.returned + s.releasesOf strict t op ≤
      countOf (op.borrower a.lives t) a.taken) :
    Square n (s.attemptOf strict t op).1 (a.after strict s t op) ∧
      (s.attemptOf strict t op).2.1 ≠ .fault .noReaders := by
  rcases attemptOf_cases strict s t op with ⟨s', r, hrefuse, hrun, hs'⟩ | ⟨hbegun, hrun⟩
  · rw [hrun, Tab.after_refused hrefuse]
    refine ⟨?_, nofun⟩
    rcases hs' with rfl | rfl
    · exact h
    · exact h.drew (alike_consider s t op).lock (alike_consider s t op).waiting (drew_consider s t op)
  · have hreleases : s.releasesOf strict t op = (s.ready t op).releasesTo t op := by
      unfold State.releasesOf
      rw [hbegun]
      rfl
    rw [hreleases] at hp
    rw [hrun, after_begun hbegun]
    exact (h.drew (s.alike_ready t op).lock (s.alike_ready t op).waiting (drew_ready s t op)).perform hp

/-- The writers that go on after an operation draw no index. -/
theorem kept_stepOf (h : (s.attemptOf strict t op).1.kept u = some i) : (s.stepOf strict t op).1.kept u = some i := by
  have hr : (s.stepOf strict t op).1.team.registry = (s.attemptOf strict t op).1.team.registry :=
    registry_settle (s.attemptOf strict t op).1 ((s.attemptOf strict t op).1.waiting.length + 1)
  unfold State.kept
  rw [hr]
  exact h

theorem Square.step (h : Square n s a)
    (hp : countOf (op.borrower a.lives t) a.returned + s.releasesOf strict t op ≤
      countOf (op.borrower a.lives t) a.taken) :
    Square n (s.stepOf strict t op).1 (a.after strict s t op) ∧
      (s.stepOf strict t op).2.reply ≠ .fault .noReaders := by
  obtain ⟨h', hreply⟩ := h.attempt strict hp
  have htidy := h'.tidy.settle ((s.attemptOf strict t op).1.waiting.length + 1)
  exact ⟨⟨htidy, h'.within, h'.life, fun hm => kept_stepOf strict (h'.own hm), h'.index⟩, hreply⟩

theorem Square.run (h : Square n s a) (ops : List (Thread × Op)) (hp : Paired strict s a ops) :
    Square n (s.runOf strict ops).1 (a.afterAll strict s ops) ∧
      ∀ r ∈ (s.runOf strict ops).2, r.reply ≠ .fault .noReaders := by
  induction ops generalizing s a with
  | nil => exact ⟨h, fun _ hr => absurd hr List.not_mem_nil⟩
  | cons e ops ih =>
    obtain ⟨t, op⟩ := e
    obtain ⟨h', hreply⟩ := h.step strict hp.1
    obtain ⟨hend, hreplies⟩ := ih h' hp.2
    exact ⟨hend, List.forall_mem_cons.mpr ⟨hreply, hreplies⟩⟩

theorem run_kept (h : s.kept u = some i) (ops : List (Thread × Op)) (hops : ∀ e ∈ ops, e ≠ (u, .exit)) :
    (s.runOf strict ops).1.kept u = some i := by
  induction ops generalizing s with
  | nil => exact h
  | cons e ops ih =>
    obtain ⟨t, op⟩ := e
    obtain ⟨hne, hrest⟩ := List.forall_mem_cons.mp hops
    have hattempt : (s.attemptOf strict t op).1.kept u = some i := by
      refine attempt_kept strict h ?_
      rintro rfl rfl
      exact hne rfl
    exact ih (kept_stepOf strict hattempt) hrest

/-- A thread that attempts to enter keeps its index. -/
theorem attempt_keeps (hop : op.named = none) (h : s.answersOf strict t op ≠ []) :
    (s.attemptOf strict t op).1.kept t = some (s.own t) := by
  obtain ⟨n, hs⟩ := Nat.exists_eq_succ_of_ne_zero (Nat.pos_iff_ne_zero.mp s.lock.pos)
  unfold State.answersOf at h
  rcases attemptOf_cases strict s t op with ⟨s', r, hrefuse, -⟩ | ⟨hbegun, hrun⟩
  · rw [hrefuse] at h
    exact absurd rfl h
  · rw [hbegun] at h
    have ha := s.alike_ready t op
    cases hi : (s.ready t op).served? t op with
    | none => exact absurd (unserved hi).1 h
    | some i =>
      obtain ⟨s', hserved, hs'⟩ := perform_served (n := n) (by rw [ha.lock]; exact hs) hi
      have hi' : s.own t = i := by
        have hnamed := named_of_served hi
        rw [hop] at hnamed
        exact ha.own.symm.trans hnamed
      rw [hrun, hserved, hi']
      exact hs'.kept hop h

end

/-- What holds of the stripes of every lock of `n + 1`, in any state. -/
structure StripesAccounted (n : Nat) : Prop where
  /-- The strict attempts, steps and runs are those of the program. -/
  programmed : ∀ s : State StripedLock Task, s.Programmed
  /-- An operation that enters or leaves changes at most the stripe of its index. -/
  untouched : ∀ (strict : Bool) (s : State StripedLock Task) (t : Thread) (op : Op) (i : Index),
    s.lock.words.size = n + 1 → s.served? t op = some i → ∀ k ≠ i.slot (n + 1),
      (s.attemptOf strict t op).1.lock.word k = s.lock.word k ∧
        (s.waiting = [] → (s.stepOf strict t op).1.lock.word k = s.lock.word k)
  /-- From its first attempt to enter until it ends a thread has the same index. -/
  steady : ∀ (strict : Bool) (s : State StripedLock Task) (t : Thread) (op : Op) (ops : List (Thread × Op)),
    op.named = none → s.answersOf strict t op ≠ [] → (∀ e ∈ ops, e ≠ (t, .exit)) →
      (s.runOf strict ((t, op) :: ops)).1.own t = s.own t
  /-- Operations that name indices of different stripes can be made in either order. -/
  commute : ∀ (strict : Bool) (s : State StripedLock Task) (a b : Op) (i j : Index) (t u : Thread),
    s.lock.words.size = n + 1 → a.named = some i → b.named = some j → i.slot (n + 1) ≠ j.slot (n + 1) →
      (((s.attemptOf strict u b).1.attemptOf strict t a).2.1 = (s.attemptOf strict t a).2.1 ∧
        ((s.attemptOf strict t a).1.attemptOf strict u b).2.1 = (s.attemptOf strict u b).2.1 ∧
        ((s.attemptOf strict u b).1.attemptOf strict t a).1.lock =
          ((s.attemptOf strict t a).1.attemptOf strict u b).1.lock) ∧
      (s.waiting = [] → ∃ x y, (s.runOf strict [(t, a), (u, b)]).2.map Report.reply = [x, y] ∧
        (s.runOf strict [(u, b), (t, a)]).2.map Report.reply = [y, x] ∧
        (s.runOf strict [(t, a), (u, b)]).1.lock = (s.runOf strict [(u, b), (t, a)]).1.lock)
  /-- If nobody releases more than he acquired, no release fails, and each stripe counts what is out on it. -/
  paired : ∀ (strict : Bool) (ops : List (Thread × Op)), Paired strict (.start (StripedLock.new n)) .empty ops →
    (∀ r ∈ ((State.start (StripedLock.new n)).runOf strict ops).2, r.reply ≠ .fault .noReaders) ∧
    ∀ k < n + 1, ∃ m, ((State.start (StripedLock.new n)).runOf strict ops).1.lock.readersAt k = .ok m ∧
      m.toNat + countOn n k (Tab.empty.afterAll strict (.start (StripedLock.new n)) ops).returned =
        countOn n k (Tab.empty.afterAll strict (.start (StripedLock.new n)) ops).taken
  /-- The total is that of the stripes, or does not fit. -/
  total : ∀ l : StripedLock, l.words.size = n + 1 → ∃ r : Nat → UInt32,
    (∀ k < n + 1, l.readersAt k = .ok (r k)) ∧
    (((List.range (n + 1)).map fun k => (r k).toNat).sum < 2 ^ 32 →
      ∃ m, l.readers = .ok m ∧ m.toNat = ((List.range (n + 1)).map fun k => (r k).toNat).sum) ∧
    (2 ^ 32 ≤ ((List.range (n + 1)).map fun k => (r k).toNat).sum → l.readers = .error .sumOverflow)
  /-- It fails to fit for some state only where there are five stripes or more. -/
  fits : (∀ l : StripedLock, l.words.size = n + 1 → ∃ m, l.readers = .ok m) ↔ n < 4

theorem readersAt_eq {l : StripedLock} {k : Nat} (hk : k < l.words.size) : l.readersAt k = .ok (l.word k).readers :=
  if_pos hk

theorem readers_fit (n : Nat) : (∀ l : StripedLock, l.words.size = n + 1 → ∃ m, l.readers = .ok m) ↔ n < 4 := by
  constructor
  · intro h
    by_contra hn
    obtain ⟨m, hm⟩ := h (StripedLock.crammed n) (by simp [StripedLock.crammed])
    have hover := (StripedLock.crammed n).readers_total.2
    rw [StripedLock.total_crammed] at hover
    rw [hover (by omega)] at hm
    cases hm
  · intro hn l hl
    obtain ⟨m, hm, -⟩ := l.readers_total.1 (StripedLock.total_lt (by omega))
    exact ⟨m, hm⟩

/-- In every lock of stripes readers are counted stripe by stripe, each where its index maps to. -/
theorem stripes_accounted (n : Nat) : StripesAccounted n where
  programmed := State.programmed
  untouched strict s t op i hs hi k hk := by
    obtain ⟨⟨w, hlock⟩, hwaiting⟩ := attempt_untouched strict hs hi
    have hword : (s.attemptOf strict t op).1.lock.word k = s.lock.word k := by
      rw [hlock, StripedLock.word_put_of_ne _ (Ne.symm hk)]
    refine ⟨hword, fun hw => ?_⟩
    rw [(stepOf_idle strict (hwaiting.trans hw)).1]
    exact hword
  steady strict s t op ops hop ha hops :=
    own_of_kept (run_kept strict (kept_stepOf strict (attempt_keeps strict hop ha)) ops hops)
  commute strict s a b i j t u hs ha hb hne :=
    ⟨attempts_commute strict hs ha hb hne t u, fun hw => runs_commute strict hs hw ha hb hne t u⟩
  paired strict ops hp := by
    obtain ⟨hsquare, hreplies⟩ := (square_start n).run strict ops hp
    refine ⟨hreplies, ?_⟩
    intro k hk
    obtain ⟨b, hb⟩ := hsquare.tidy.counted.word k hk
    have hle := hsquare.countOn_le k
    have hcount := hb.readers
    refine ⟨_, readersAt_eq (by rw [hsquare.tidy.counted.size]; exact hk), ?_⟩
    omega
  total l hl := by
    obtain ⟨hsum, hover⟩ := l.readers_total
    unfold StripedLock.total at hsum hover
    rw [hl] at hsum hover
    exact ⟨fun k => (l.word k).readers, fun k hk => readersAt_eq (by rw [hl]; exact hk), hsum, hover⟩
  fits := readers_fit n

/-- Two threads and two indices share two stripes; thread 1 ends with a reader out and comes back as another. -/
example : Paired true (.start (StripedLock.new 1)) .empty [(1, .enter none), (2, .read "g"),
    (3, .enterAt ⟨6⟩ (some 2)), (1, .exit), (2, .drop "g"), (1, .enter (some 3)), (1, .leave 3),
    (2, .leaveAt ⟨6⟩ 2)] := by
  decide +kernel

end BusyWait.LockStep.Locks
