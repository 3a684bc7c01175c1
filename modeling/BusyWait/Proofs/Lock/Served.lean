import BusyWait.Proofs.Lock.Accounts

/-
  BusyWait.Proofs.Lock.Served — readers' operations on one stripe of many.

  An operation that enters or leaves is for one index: the one it names, or that of its
  thread. What becomes of the word of that index, and the reply, depend on this word only
  (`Op.served`), and no other word changes, be the words in order or not.

  - `perform_served`: an operation of a striped lock is what `Op.served` says.
  - `attempt_untouched`: it changes no other stripe.
  - `attempts_commute`, `runs_commute`: two of them on different stripes can be done in
    either order.
-/

namespace BusyWait

namespace Word

/-- So many attempts to enter, up to the first that breaks off: their answers, and why it broke off. -/
def attempts (w : Word) : Nat → Word × List Bool × Option Fault
  | 0 => (w, [], none)
  | n + 1 =>
    match w.tryEnter with
    | (w, .error f) => (w, [], some f)
    | (w, .ok b) =>
      let (w, bs, f) := w.attempts n
      (w, b :: bs, f)

/-- So many releases, up to the first that fails. -/
def releases (w : Word) : Nat → Word × Option Fault
  | 0 => (w, none)
  | n + 1 =>
    match w.release with
    | (w, .error f) => (w, some f)
    | (w, .ok ()) => w.releases n

theorem Counts.tryEnter {w : Word} {n : Nat} {b : Bool} (h : w.Counts n b) :
    (w.tryEnter = (w.enter, .ok true) ∧ w.enter.Counts (n + 1) b) ∨ w.tryEnter = (w, .ok false) ∨
      w.tryEnter = (w, .error .tooManyReaders) := by
  unfold Word.tryEnter
  by_cases hp : w.writerPending = true
  · rw [if_pos hp]
    exact .inr (.inl rfl)
  rw [if_neg hp]
  by_cases hr : w.readers < maxReaders
  · rw [if_pos hr]
    obtain rfl : b = false := by
      rw [h.writerPending] at hp
      exact Bool.eq_false_iff.mpr hp
    exact .inl ⟨rfl, h.enter hr⟩
  · rw [if_neg hr]
    exact .inr (.inr rfl)

/-- As many readers more as got in. -/
theorem Counts.attempts {w : Word} {n : Nat} {b : Bool} (h : w.Counts n b) (m : Nat) :
    (w.attempts m).1.Counts (n + (w.attempts m).2.1.count true) b ∧
      ∀ f, (w.attempts m).2.2 = some f → f = .tooManyReaders := by
  induction m generalizing w n with
  | zero => exact ⟨h, nofun⟩
  | succ m ih =>
    unfold Word.attempts
    rcases h.tryEnter with ⟨htry, h'⟩ | htry | htry
    · obtain ⟨hc, hf⟩ := ih h'
      rw [htry]
      refine ⟨?_, hf⟩
      show Counts _ (n + (true :: (w.enter.attempts m).2.1).count true) b
      rwa [List.count_cons_self, Nat.add_comm _ 1, ← Nat.add_assoc]
    · obtain ⟨hc, hf⟩ := ih h
      rw [htry]
      refine ⟨?_, hf⟩
      show Counts _ (n + (false :: (w.attempts m).2.1).count true) b
      rwa [List.count_cons_of_ne Bool.false_ne_true]
    · rw [htry]
      exact ⟨h, fun f hf => (Option.some.inj hf).symm⟩

/-- As many readers less as there were releases. -/
theorem Counts.releases {w : Word} {n m : Nat} {b : Bool} (h : w.Counts (n + m) b) :
    (w.releases m).1.Counts n b ∧ (w.releases m).2 = none := by
  induction m generalizing w with
  | zero => exact ⟨h, rfl⟩
  | succ m ih =>
    unfold Word.releases
    rw [h.release]
    exact ih h.leave

end Word

namespace StripedLock

theorem put_put (l : StripedLock) (k : Nat) (v w : Word) : (l.put k v).put k w = l.put k w := by
  simp [put]

theorem put_comm (l : StripedLock) {j k : Nat} (h : j ≠ k) (v w : Word) :
    (l.put j v).put k w = (l.put k w).put j v := by
  simp only [put, mk.injEq]
  exact Array.setIfInBounds_comm v w h

theorem word_put_of_ne (l : StripedLock) {j k : Nat} (h : k ≠ j) (w : Word) : (l.put k w).word j = l.word j := by
  simp [put, word, h]

end StripedLock

end BusyWait

namespace BusyWait.LockStep.Locks

open StripedLock (Task)

/-! ## What is done for a reader -/

def Reply.ofEntry : Except Fault Bool → Reply
  | .ok b => .flag b
  | .error f => .fault f

/-- Of attempts after `got` that succeeded. -/
def Reply.ofAttempts (got : Nat) : List Bool × Option Fault → Reply
  | (bs, none) => .count (got + bs.count true)
  | (_, some f) => .fault f

theorem Reply.ofAttempts_refused (got : Nat) (a : List Bool × Option Fault) :
    ofAttempts got (false :: a.1, a.2) = ofAttempts got a := by
  obtain ⟨bs, _ | f⟩ := a
  · exact congrArg (Reply.count <| got + ·) (List.count_cons_of_ne Bool.false_ne_true)
  · rfl

theorem Reply.ofAttempts_entered (got : Nat) (a : List Bool × Option Fault) :
    ofAttempts got (true :: a.1, a.2) = ofAttempts (got + 1) a := by
  obtain ⟨bs, _ | f⟩ := a
  · show Reply.count (got + (true :: bs).count true) = .count (got + 1 + bs.count true)
    rw [List.count_cons_self, Nat.add_right_comm, Nat.add_assoc]
  · rfl

def Reply.ofReleases : Option Fault → Reply
  | none => .done
  | some f => .fault f

/-- One attempt, or as many as it says. -/
def enterWord (w : Word) : Option Nat → Word × Reply
  | none => (w.tryEnter.1, .ofEntry w.tryEnter.2)
  | some n => ((w.attempts n).1, .ofAttempts 0 (w.attempts n).2)

def leaveWord (w : Word) (n : Nat) : Word × Reply := ((w.releases n).1, .ofReleases (w.releases n).2)

/-- What becomes of the word, and the reply. -/
def Op.served (w : Word) : Op → Word × Reply
  | .enter n | .enterAt _ n => enterWord w n
  | .read _ => enterWord w none
  | .leave n | .leaveAt _ n => leaveWord w n
  | .drop _ => leaveWord w 1
  | _ => (w, .done)

/-- How often an operation tries to enter. -/
def Op.tries : Op → Nat
  | .enter n | .enterAt _ n => n.getD 1
  | .read _ => 1
  | _ => 0

/-- The index that an operation names. -/
def Op.named : Op → Option Index
  | .enterAt i _ | .leaveAt i _ => some i
  | _ => none

namespace State

variable {L T : Type} [Lock L T]

/-- The index for which an operation enters or leaves, if it does. -/
def served? (s : State L T) (t : Thread) : Op → Option Index
  | .enter _ | .leave _ | .read _ => some (s.own t)
  | .enterAt i _ | .leaveAt i _ => some i
  | .drop g =>
    match s.guard? t g with
    | some ⟨_, _, .read⟩ => some (s.own t)
    | _ => none
  | _ => none

/-- The index that a thread keeps. -/
def kept (s : State L T) (t : Thread) : Option Index := s.team.registry.kept.get? t

end State

/-! ## On a striped lock -/

section
variable {n : Nat} {s : State StripedLock Task} {t : Thread}

/-- Of the lock only word `k` has changed, and of the rest what is recorded. -/
structure Wrote (s : State StripedLock Task) (k : Nat) (w : Word) (s' : State StripedLock Task) : Prop where
  lock : s'.lock = s.lock.put k w
  waiting : s'.waiting = s.waiting
  registry : s'.team.registry = s.team.registry

theorem Wrote.word {k : Nat} {w : Word} {s' : State StripedLock Task} (h : Wrote s k w s')
    (hk : k < s.lock.words.size) : s'.lock.word k = w := by
  rw [h.lock, StripedLock.word_put _ _ _ _ hk, if_pos rfl]

theorem Wrote.size {k : Nat} {w : Word} {s' : State StripedLock Task} (h : Wrote s k w s') :
    s'.lock.words.size = s.lock.words.size := by
  rw [h.lock, StripedLock.size_put]

theorem Wrote.trans {k : Nat} {v w : Word} {s' s'' : State StripedLock Task} (h : Wrote s k v s')
    (h' : Wrote s' k w s'') : Wrote s k w s'' :=
  ⟨by rw [h'.lock, h.lock, StripedLock.put_put], h'.waiting.trans h.waiting, h'.registry.trans h.registry⟩

theorem wrote_self {k : Nat} (hk : k < s.lock.words.size) : Wrote s k (s.lock.word k) s :=
  ⟨(StripedLock.put_self _ hk).symm, rfl, rfl⟩

variable (hs : s.lock.words.size = n + 1) (i : Index)
include hs

theorem enterOnce_wrote : ∃ s', s.enterOnce t i =
      (s', .done (.ofEntry (s.lock.word (i.slot (n + 1))).tryEnter.2)) ∧
    Wrote s (i.slot (n + 1)) (s.lock.word (i.slot (n + 1))).tryEnter.1 s' := by
  obtain ⟨ns, hrun, -⟩ := (StripedLock.notes n).run_enter hs i
  unfold State.enterOnce
  rw [State.run_eq hrun]
  exact ⟨_, rfl, rfl, rfl, rfl⟩

theorem slot_lt_size : i.slot (n + 1) < s.lock.words.size := by
  rw [hs]
  exact i.slot_lt (Nat.succ_pos n)

theorem enterMany_wrote (m got : Nat) : ∃ s', s.enterMany t i got m =
      (s', .ofAttempts got ((s.lock.word (i.slot (n + 1))).attempts m).2) ∧
    s.answers t i m = ((s.lock.word (i.slot (n + 1))).attempts m).2.1 ∧
    Wrote s (i.slot (n + 1)) ((s.lock.word (i.slot (n + 1))).attempts m).1 s' := by
  induction m generalizing s got with
  | zero => exact ⟨s, rfl, rfl, wrote_self (slot_lt_size hs i)⟩
  | succ m ih =>
    obtain ⟨s', hone, hw⟩ := enterOnce_wrote (t := t) hs i
    have hword := hw.word (slot_lt_size hs i)
    have ih := fun got => ih (s := s') (hw.size.trans hs) got
    simp only [hword] at ih
    unfold State.enterMany State.answers Word.attempts
    rw [hone]
    generalize (s.lock.word (i.slot (n + 1))).tryEnter = e at hw ih
    obtain ⟨w, f | _ | _⟩ := e
    · exact ⟨s', rfl, rfl, hw⟩
    · obtain ⟨s'', hrun, hanswers, hw'⟩ := ih got
      rw [← Reply.ofAttempts_refused] at hrun
      exact ⟨s'', hrun, congrArg (false :: ·) hanswers, hw.trans hw'⟩
    · obtain ⟨s'', hrun, hanswers, hw'⟩ := ih (got + 1)
      rw [← Reply.ofAttempts_entered] at hrun
      exact ⟨s'', hrun, congrArg (true :: ·) hanswers, hw.trans hw'⟩

theorem enter_wrote (k : Option Nat) : ∃ s', s.enter t i k = (s', (enterWord (s.lock.word (i.slot (n + 1))) k).2) ∧
    s.answers t i (k.getD 1) = ((s.lock.word (i.slot (n + 1))).attempts (k.getD 1)).2.1 ∧
    Wrote s (i.slot (n + 1)) (enterWord (s.lock.word (i.slot (n + 1))) k).1 s' := by
  cases k with
  | none =>
    obtain ⟨s', hone, hw⟩ := enterOnce_wrote (t := t) hs i
    obtain ⟨-, -, hanswers, -⟩ := enterMany_wrote (t := t) hs i 1 0
    refine ⟨s', ?_, hanswers, hw⟩
    unfold State.enter
    rw [hone]
    show (s', State.reply .done (.done (.ofEntry (s.lock.word (i.slot (n + 1))).tryEnter.2))) =
      (s', Reply.ofEntry (s.lock.word (i.slot (n + 1))).tryEnter.2)
    rcases (s.lock.word (i.slot (n + 1))).tryEnter.2 with f | _ | _ <;> rfl
  | some m => exact enterMany_wrote hs i m 0

theorem leaveOnce_wrote : ∃ s' log, s.run t (Lock.leave s.lock i) =
      (s', .done (.ofExcept (s.lock.word (i.slot (n + 1))).release.2), log) ∧
    Wrote s (i.slot (n + 1)) (s.lock.word (i.slot (n + 1))).release.1 s' := by
  obtain ⟨ns, hrun, -⟩ := (StripedLock.notes n).run_leave hs i
  rw [State.run_eq hrun]
  exact ⟨_, _, rfl, rfl, rfl, rfl⟩

theorem leaveMany_wrote (m : Nat) : ∃ s', s.leaveMany t i m =
      (s', (leaveWord (s.lock.word (i.slot (n + 1))) m).2) ∧
    Wrote s (i.slot (n + 1)) (leaveWord (s.lock.word (i.slot (n + 1))) m).1 s' := by
  unfold leaveWord
  induction m generalizing s with
  | zero => exact ⟨s, rfl, wrote_self (slot_lt_size hs i)⟩
  | succ m ih =>
    obtain ⟨s', log, hone, hw⟩ := leaveOnce_wrote (t := t) hs i
    have hword := hw.word (slot_lt_size hs i)
    have ih := ih (hw.size.trans hs)
    rw [hword] at ih
    unfold State.leaveMany Word.releases
    rw [hone]
    generalize (s.lock.word (i.slot (n + 1))).release = e at hw ih
    obtain ⟨w, f | _⟩ := e
    · exact ⟨s', rfl, hw⟩
    · obtain ⟨s'', hrun, hw'⟩ := ih
      exact ⟨s'', hrun, hw.trans hw'⟩

end

/-! ## Whole operations -/

section
variable {n : Nat} {s : State StripedLock Task} {t : Thread} {op : Op} {i : Index}

/-- The registry is as it was, or the thread has drawn its index. -/
def Drew (s s' : State StripedLock Task) (t : Thread) : Prop :=
  s'.team.registry = s.team.registry ∨ s'.team.registry = (s.team.registry.get t).1

/-- What an operation that enters or leaves for index `i` does. -/
structure Serves (n : Nat) (s : State StripedLock Task) (t : Thread) (op : Op) (i : Index)
    (s' : State StripedLock Task) : Prop where
  lock : s'.lock = s.lock.put (i.slot (n + 1)) (op.served (s.lock.word (i.slot (n + 1)))).1
  waiting : s'.waiting = s.waiting
  answers : s.answersTo t op = ((s.lock.word (i.slot (n + 1))).attempts op.tries).2.1
  drew : Drew s s' t
  /-- To attempt anything takes the thread's index. -/
  kept : op.named = none → s.answersTo t op ≠ [] → s'.kept t = some i

/-- With its index taken, a thread keeps it. -/
theorem Wrote.indexed {k : Nat} {w : Word} {s' : State StripedLock Task} (h : Wrote (s.indexFor t).1 k w s') :
    s'.lock = s.lock.put k w ∧ s'.waiting = s.waiting ∧ Drew s s' t ∧ s'.kept t = some (s.own t) := by
  refine ⟨h.lock, h.waiting, .inr h.registry, ?_⟩
  unfold State.kept
  rw [h.registry]
  exact Registry.kept_get s.team.registry t

theorem perform_served (hs : s.lock.words.size = n + 1) (hi : s.served? t op = some i) :
    ∃ s', s.perform t op = (s', (op.served (s.lock.word (i.slot (n + 1)))).2, []) ∧ Serves n s t op i s' := by
  have hs₁ : (s.indexFor t).1.lock.words.size = n + 1 := hs
  cases op with
  | enterAt j k =>
    obtain rfl : j = i := Option.some.inj hi
    obtain ⟨s', hrun, hanswers, hw⟩ := enter_wrote (t := t) hs j k
    exact ⟨s', congrArg (fun e => (e.1, e.2, [])) hrun, hw.lock, hw.waiting, hanswers, .inl hw.registry, nofun⟩
  | leaveAt j k =>
    obtain rfl : j = i := Option.some.inj hi
    obtain ⟨s', hrun, hw⟩ := leaveMany_wrote (t := t) hs j k
    exact ⟨s', congrArg (fun e => (e.1, e.2, [])) hrun, hw.lock, hw.waiting, rfl, .inl hw.registry, nofun⟩
  | enter k =>
    obtain rfl : s.own t = i := Option.some.inj hi
    by_cases hk : k = some 0
    · -- nothing is attempted, and no index taken
      subst hk
      exact ⟨s, rfl, (StripedLock.put_self _ (slot_lt_size hs _)).symm, rfl, rfl, .inl rfl, fun _ h => absurd rfl h⟩
    · obtain ⟨s', hrun, hanswers, hw⟩ := enter_wrote (t := t) hs₁ (s.own t) k
      obtain ⟨hlock, hwaiting, hdrew, hkept⟩ := hw.indexed
      refine ⟨s', ?_, hlock, hwaiting, hanswers, hdrew, fun _ _ => hkept⟩
      have hindex : s.withIndex t k (fun s i => s.enter t i k) = (s.indexFor t).1.enter t (s.own t) k := by
        unfold State.withIndex
        split
        · exact absurd rfl hk
        · rfl
      exact congrArg (fun e => (e.1, e.2, [])) (hindex.trans hrun)
  | leave k =>
    obtain rfl : s.own t = i := Option.some.inj hi
    cases k with
    | zero =>
      exact ⟨s, rfl, (StripedLock.put_self _ (slot_lt_size hs _)).symm, rfl, rfl, .inl rfl, fun _ h => absurd rfl h⟩
    | succ k =>
      obtain ⟨s', hrun, hw⟩ := leaveMany_wrote (t := t) hs₁ (s.own t) (k + 1)
      obtain ⟨hlock, hwaiting, hdrew, hkept⟩ := hw.indexed
      exact ⟨s', congrArg (fun e => (e.1, e.2, [])) hrun, hlock, hwaiting, rfl, hdrew, fun _ _ => hkept⟩
  | read g =>
    obtain rfl : s.own t = i := Option.some.inj hi
    obtain ⟨s', hrun, hw⟩ := enterOnce_wrote (t := t) hs₁ (s.own t)
    obtain ⟨-, -, hanswers, -⟩ := enterMany_wrote (t := t) hs₁ (s.own t) 1 0
    obtain ⟨hlock, hwaiting, hdrew, hkept⟩ := hw.indexed
    change (s.indexFor t).1.enterOnce t (s.indexFor t).2 =
      (s', .done (.ofEntry (s.lock.word ((s.own t).slot (n + 1))).tryEnter.2)) at hrun
    change s'.lock = s.lock.put _ (s.lock.word ((s.own t).slot (n + 1))).tryEnter.1 at hlock
    show ∃ s'', _ = (s'', Reply.ofEntry (s.lock.word ((s.own t).slot (n + 1))).tryEnter.2, []) ∧ _
    simp only [State.perform, hrun]
    rcases (s.lock.word ((s.own t).slot (n + 1))).tryEnter.2 with f | _ | _
    · exact ⟨s', rfl, hlock, hwaiting, hanswers, hdrew, fun _ _ => hkept⟩
    · exact ⟨s', rfl, hlock, hwaiting, hanswers, hdrew, fun _ _ => hkept⟩
    · exact ⟨_, rfl, hlock, hwaiting, hanswers, hdrew, fun _ _ => hkept⟩
  | drop g =>
    rcases hg : s.guard? t g with _ | ⟨u, name, _ | _⟩
    · simp only [State.served?, hg] at hi
      cases hi
    · simp only [State.served?, hg] at hi
      obtain rfl : s.own t = i := Option.some.inj hi
      obtain ⟨s', hrun, hw⟩ := leaveMany_wrote (s := (State.indexFor
        { s with guards := s.guards.erase ⟨u, name, .read⟩ } t).1) (t := t) hs (s.own t) 1
      obtain ⟨hlock, hwaiting, hdrew, hkept⟩ := hw.indexed
      refine ⟨s', ?_, hlock, hwaiting, rfl, hdrew, fun _ _ => hkept⟩
      simp only [State.perform, hg]
      exact congrArg (fun e => (e.1, e.2, [])) hrun
    · simp only [State.served?, hg] at hi
      cases hi
  | _ => cases hi

end

/-! ## With what is refused -/

section
variable {n : Nat} {s : State StripedLock Task} {t : Thread} {op : Op} {i : Index} (strict : Bool)

/-- An operation is refused, and then at most draws an index, or is done. -/
theorem attemptOf_cases (s : State StripedLock Task) (t : Thread) (op : Op) :
    (∃ s' r, s.refuse strict t op = (s', some r) ∧ s.attemptOf strict t op = (s', .refused r, []) ∧
        (s' = s ∨ s' = (s.consider t op).1)) ∨
      s.refuse strict t op = ((s.consider t op).1, none) ∧ s.attemptOf strict t op = (s.ready t op).perform t op := by
  unfold State.attemptOf State.refuse
  by_cases hw : (strict && s.isWaiting t) = true
  · rw [if_pos hw]
    exact .inl ⟨s, _, rfl, rfl, .inl rfl⟩
  rw [if_neg hw]
  rcases hr : (if strict then (s.consider t op).2 else none) with _ | r
  · exact .inr ⟨rfl, rfl⟩
  · exact .inl ⟨_, r, rfl, rfl, .inr rfl⟩

theorem served?_ready (s : State StripedLock Task) (t : Thread) (op : Op) :
    (s.ready t op).served? t op = s.served? t op := by
  have ha := s.alike_ready t op
  cases op with
  | drop g => simp only [State.served?, State.guard?, ha.own, ha.guards]
  | _ => simp only [State.served?, ha.own]

/-- An operation that enters or leaves for index `i` changes at most the word of that index. -/
theorem attempt_untouched (hs : s.lock.words.size = n + 1) (hi : s.served? t op = some i) :
    (∃ w, (s.attemptOf strict t op).1.lock = s.lock.put (i.slot (n + 1)) w) ∧
      (s.attemptOf strict t op).1.waiting = s.waiting := by
  have hself : s.lock = s.lock.put (i.slot (n + 1)) (s.lock.word (i.slot (n + 1))) :=
    (StripedLock.put_self _ (slot_lt_size hs i)).symm
  rcases attemptOf_cases strict s t op with ⟨s', r, -, hrun, rfl | rfl⟩ | ⟨-, hrun⟩
  · rw [hrun]
    exact ⟨⟨_, hself⟩, rfl⟩
  · rw [hrun]
    have ha := alike_consider s t op
    exact ⟨⟨_, ha.lock.trans hself⟩, ha.waiting⟩
  · have ha := s.alike_ready t op
    have hs₁ : (s.ready t op).lock.words.size = n + 1 := by rw [ha.lock, hs]
    obtain ⟨s', hserved, hs'⟩ := perform_served hs₁ ((served?_ready s t op).trans hi)
    rw [hrun, hserved]
    have hlock := hs'.lock
    rw [ha.lock] at hlock
    exact ⟨⟨_, hlock⟩, hs'.waiting.trans ha.waiting⟩

/-- Whether the operation is a release of more readers than there are. -/
def Op.exceeds (w : Word) : Op → Bool
  | .leaveAt _ m => w.readers.toNat < m
  | _ => false

/-- What becomes of the word of an operation that names its index, and the reply, with these writers waiting. -/
def Op.attempted (ws : List (Writer Task)) (t : Thread) (w : Word) (op : Op) : Word × Reply :=
  if strict && ws.any (·.thread == t) then (w, .refused .threadWaiting)
  else if strict && !ws.isEmpty && op.exceeds w then (w, .refused .wouldHang)
  else op.served w

theorem consider_named (hs : s.lock.words.size = n + 1) (hop : op.named = some i) (t : Thread) : s.consider t op =
    (s, if !s.waiting.isEmpty && op.exceeds (s.lock.word (i.slot (n + 1))) then some .wouldHang else none) := by
  cases op with
  | enterAt j k => simp [State.consider, Op.exceeds]
  | leaveAt j k =>
    obtain rfl : j = i := Option.some.inj hop
    have hslot : s.lock.stripeOf j = j.slot (n + 1) := by rw [StripedLock.stripeOf, hs]
    have hon : Lock.readersOn s.lock j = (s.lock.word (j.slot (n + 1))).readers := by rw [← hslot]; rfl
    simp only [State.consider, State.refusedLeave, Op.exceeds, hon]
    by_cases hw : s.waiting.isEmpty = true
    · simp [hw]
    · simp [hw]
  | _ => cases hop

theorem attempt_named (hs : s.lock.words.size = n + 1) (hop : op.named = some i) (t : Thread) :
    let e := op.attempted strict s.waiting t (s.lock.word (i.slot (n + 1)))
    ∃ s', s.attemptOf strict t op = (s', e.2, []) ∧ s'.lock = s.lock.put (i.slot (n + 1)) e.1 ∧
      s'.waiting = s.waiting := by
  have hself : s.lock = s.lock.put (i.slot (n + 1)) (s.lock.word (i.slot (n + 1))) :=
    (StripedLock.put_self _ (slot_lt_size hs i)).symm
  have hserved : s.served? t op = some i := by
    cases op <;> first | exact hop | cases hop
  have hc := consider_named hs hop t
  have hready : s.ready t op = { s with team := s.team.join t } := by
    rw [State.ready_eq s (by rintro rfl; cases hop), hc]
  unfold Op.attempted State.attemptOf State.refuse
  by_cases hw : (strict && s.isWaiting t) = true
  · rw [if_pos hw, if_pos (by exact hw)]
    exact ⟨s, rfl, hself, rfl⟩
  rw [if_neg hw, if_neg (by exact hw), hc]
  by_cases hx : (strict && !s.waiting.isEmpty && op.exceeds (s.lock.word (i.slot (n + 1)))) = true
  · obtain ⟨⟨hstrict, hne⟩, hex⟩ : (strict = true ∧ (!s.waiting.isEmpty) = true) ∧ _ := by simpa using hx
    rw [if_pos hx, hstrict, hne, hex]
    exact ⟨s, rfl, hself, rfl⟩
  · have hnone : (if strict then (if !s.waiting.isEmpty && op.exceeds (s.lock.word (i.slot (n + 1))) then
        some Refusal.wouldHang else none) else none) = none := by
      cases strict with
      | false => rfl
      | true => exact (if_pos rfl).trans (if_neg hx)
    obtain ⟨s', hrun, hs'⟩ := perform_served (n := n) (s := s.ready t op) (by rw [hready]; exact hs)
      ((served?_ready s t op).trans hserved)
    rw [if_neg hx]
    simp only [hnone]
    rw [hready] at hrun hs'
    have hbegun : s.begun t op = { s with team := s.team.join t } := if_neg (by rintro rfl; cases hop)
    rw [hbegun]
    exact ⟨s', hrun, hs'.lock, hs'.waiting⟩

end

/-! ## In either order -/

section
variable {n : Nat} {s : State StripedLock Task} {t u : Thread} {a b : Op} {i j : Index} (strict : Bool)

/-- Two operations on different stripes give the same replies and leave the same lock in either order. -/
theorem attempts_commute (hs : s.lock.words.size = n + 1) (ha : a.named = some i) (hb : b.named = some j)
    (hne : i.slot (n + 1) ≠ j.slot (n + 1)) (t u : Thread) :
    ((s.attemptOf strict u b).1.attemptOf strict t a).2.1 = (s.attemptOf strict t a).2.1 ∧
      ((s.attemptOf strict t a).1.attemptOf strict u b).2.1 = (s.attemptOf strict u b).2.1 ∧
      ((s.attemptOf strict u b).1.attemptOf strict t a).1.lock =
        ((s.attemptOf strict t a).1.attemptOf strict u b).1.lock := by
  obtain ⟨s₁, h₁, hl₁, hw₁⟩ := attempt_named strict hs ha t
  obtain ⟨s₂, h₂, hl₂, hw₂⟩ := attempt_named strict hs hb u
  have hs₁ : s₁.lock.words.size = n + 1 := by rw [hl₁, StripedLock.size_put, hs]
  have hs₂ : s₂.lock.words.size = n + 1 := by rw [hl₂, StripedLock.size_put, hs]
  obtain ⟨s₃, h₃, hl₃, -⟩ := attempt_named strict hs₁ hb u
  obtain ⟨s₄, h₄, hl₄, -⟩ := attempt_named strict hs₂ ha t
  rw [hw₁, hl₁, StripedLock.word_put_of_ne _ hne] at h₃ hl₃
  rw [hw₂, hl₂, StripedLock.word_put_of_ne _ (Ne.symm hne)] at h₄ hl₄
  rw [h₁, h₂]
  refine ⟨?_, ?_, ?_⟩
  · rw [h₄]
  · rw [h₃]
  · rw [h₄, h₃, hl₃, hl₄, StripedLock.put_comm _ hne]

variable {L T : Type} [Lock L T]

/-- Where nobody waits, a step is the attempt. -/
theorem stepOf_idle {s : State L T} {t : Thread} {op : Op} (h : (s.attemptOf strict t op).1.waiting = []) :
    (s.stepOf strict t op).1 = (s.attemptOf strict t op).1 ∧
      (s.stepOf strict t op).2.reply = (s.attemptOf strict t op).2.1 := by
  unfold State.stepOf
  generalize s.attemptOf strict t op = e at h
  obtain ⟨s', r, log⟩ := e
  change s'.waiting = [] at h
  simp only [settle_empty _ h, and_self]

/-- So do runs of the two, where nobody waits. -/
theorem runs_commute (hs : s.lock.words.size = n + 1) (hw : s.waiting = []) (ha : a.named = some i)
    (hb : b.named = some j) (hne : i.slot (n + 1) ≠ j.slot (n + 1)) (t u : Thread) :
    ∃ x y, (s.runOf strict [(t, a), (u, b)]).2.map Report.reply = [x, y] ∧
      (s.runOf strict [(u, b), (t, a)]).2.map Report.reply = [y, x] ∧
      (s.runOf strict [(t, a), (u, b)]).1.lock = (s.runOf strict [(u, b), (t, a)]).1.lock := by
  have idle : ∀ {s : State StripedLock Task}, s.lock.words.size = n + 1 → s.waiting = [] →
      ∀ {op i}, op.named = some i → ∀ t, (s.attemptOf strict t op).1.lock.words.size = n + 1 ∧
        (s.attemptOf strict t op).1.waiting = [] := by
    intro s hs hw op i hop t
    obtain ⟨s', h, hl, hw'⟩ := attempt_named strict hs hop t
    rw [h]
    exact ⟨by rw [hl, StripedLock.size_put]; exact hs, hw'.trans hw⟩
  obtain ⟨hsa, hwa⟩ := idle hs hw ha t
  obtain ⟨hsb, hwb⟩ := idle hs hw hb u
  obtain ⟨-, hwab⟩ := idle hsa hwa hb u
  obtain ⟨-, hwba⟩ := idle hsb hwb ha t
  obtain ⟨hreply, hreply', hlock⟩ := attempts_commute strict hs ha hb hne t u
  obtain ⟨hstate₁, hreply₁⟩ := stepOf_idle strict hwa
  obtain ⟨hstate₂, hreply₂⟩ := stepOf_idle strict hwb
  obtain ⟨hstate₃, hreply₃⟩ := stepOf_idle strict hwab
  obtain ⟨hstate₄, hreply₄⟩ := stepOf_idle strict hwba
  refine ⟨(s.attemptOf strict t a).2.1, (s.attemptOf strict u b).2.1, ?_, ?_, ?_⟩
  · show [(s.stepOf strict t a).2.reply, ((s.stepOf strict t a).1.stepOf strict u b).2.reply] = _
    rw [hreply₁, hstate₁, hreply₃, hreply']
  · show [(s.stepOf strict u b).2.reply, ((s.stepOf strict u b).1.stepOf strict t a).2.reply] = _
    rw [hreply₂, hstate₂, hreply₄, hreply]
  · show ((s.stepOf strict t a).1.stepOf strict u b).1.lock = ((s.stepOf strict u b).1.stepOf strict t a).1.lock
    rw [hstate₁, hstate₂, hstate₃, hstate₄, hlock]

end

end BusyWait.LockStep.Locks
