import BusyWait.Proofs.Lock.Stripes

/-
  BusyWait.Proofs.Lock.OneWord — the locks of one word among any number of threads.

  The plain lock and the patient one do to their word what a striped lock of one stripe
  does to its only one, access by access (`RetryLock.striped`, `PatientLock.striped`);
  back-off changes nothing but the time in between. So every run of theirs is a run of
  such a striped lock (`via_run`), and the books of its stripe are theirs.

  - `word_locks_exclude`: in every run the word is the number of read locks that are out
    plus the writer's bit, and readers and writer exclude each other.
-/

namespace BusyWait

/-! ## A lock that acts like another -/

/-- Each access of the one is an access of the other. -/
structure Lock.Hom (L L' : Type) {T T' : Type} [Lock L T] [Lock L' T'] [Stumbles L T] [Stumbles L' T'] where
  lock : L → L'
  /-- The task of a call with some index. -/
  task : Index → T → T'
  enter : ∀ l i, Lock.enter (lock l) i = task i (Lock.enter l i)
  leave : ∀ l i, Lock.leave (lock l) i = task i (Lock.leave l i)
  block : ∀ l i, Lock.block (lock l) = task i (Lock.block l)
  unblock : ∀ l i, Lock.unblock (lock l) = task i (Lock.unblock l)
  lock_step : ∀ l i t, (Lock.step (lock l) (task i t)).1 = lock (Lock.step l t).1
  task_step : ∀ l i t, (Lock.step (lock l) (task i t)).2.1 = (Lock.step l t).2.1.map (task i) id
  stumble : ∀ l i t, Stumbles.stumble? (lock l) (task i t) = (Stumbles.stumble? l t).map (·.map (task i) id)

/-- One lock acts like another that acts like a third. -/
def Lock.Hom.comp {L L' L'' T T' T'' : Type} [Lock L T] [Lock L' T'] [Lock L'' T''] [Stumbles L T] [Stumbles L' T']
    [Stumbles L'' T''] (f : Lock.Hom L L') (g : Lock.Hom L' L'') : Lock.Hom L L'' where
  lock l := g.lock (f.lock l)
  task i t := g.task i (f.task i t)
  enter l i := by rw [g.enter, f.enter]
  leave l i := by rw [g.leave, f.leave]
  block l i := by rw [g.block _ i, f.block l i]
  unblock l i := by rw [g.unblock _ i, f.unblock l i]
  lock_step l i t := by rw [g.lock_step, f.lock_step]
  task_step l i t := by
    rw [g.task_step, f.task_step]
    cases (Lock.step l t).2.1 <;> rfl
  stumble l i t := by
    rw [g.stumble, f.stumble]
    rcases Stumbles.stumble? l t with _ | _ | _ <;> rfl

namespace Crowd

variable {L L' T T' : Type} [Lock L T] [Lock L' T'] [Stumbles L T] [Stumbles L' T']

def Visit.via (f : Index → T → T') : Visit T → Visit T'
  | .entering i t => .entering i (f i t)
  | .leaving i t => .leaving i (f i t)

theorem Visit.task_via (f : Index → T → T') (v : Visit T) : (v.via f).task = f v.index v.task := by
  cases v <;> rfl

def Tenure.via (f : T → T') : Tenure T → Tenure T'
  | .out => .out
  | .inside => .inside
  | .blocking t => .blocking (f t)
  | .unblocking t => .unblocking (f t)
  | .broken t => .broken (f t)

/-- The same threads around the other lock; its writer has no index of its own. -/
def via (f : Lock.Hom L L') (c : Crowd L T) : Crowd L' T' :=
  ⟨f.lock c.lock, c.threads.map (·.map (Visit.via f.task)), c.held, c.tenure.via (f.task ⟨0⟩)⟩

variable (f : Lock.Hom L L')

@[simp] theorem lock_via (c : Crowd L T) : (c.via f).lock = f.lock c.lock := rfl

@[simp] theorem held_via (c : Crowd L T) : (c.via f).held = c.held := rfl

@[simp] theorem tenure_via (c : Crowd L T) : (c.via f).tenure = c.tenure.via (f.task ⟨0⟩) := rfl

theorem via_setThread (c : Crowd L T) (k : Nat) (v : Option (Visit T)) :
    (c.setThread k v).via f = (c.via f).setThread k (v.map (Visit.via f.task)) := by
  simp [via, setThread, List.map_set]

theorem getElem?_via (c : Crowd L T) (k : Nat) :
    (c.via f).threads[k]? = (c.threads[k]?).map (·.map (Visit.via f.task)) := by
  simp [via]

theorem via_proceed (r : Tenure T) (p : Progress T Verdict) (g : T → T') :
    (r.proceed p).via g = (r.via g).proceed (p.map g id) := by
  cases r <;> cases p with
  | more t => rfl
  | done v => cases v <;> rfl

theorem task?_via (r : Tenure T) (g : T → T') : (r.via g).task? = r.task?.map g := by
  cases r <;> rfl

theorem via_visited (c : Crowd L T) (k : Nat) (v : Visit T) (p : Progress T Verdict) :
    (c.visited k v p).via f = (c.via f).visited k (v.via f.task) (p.map (f.task v.index) id) := by
  have hset := via_setThread f c k
  cases v with
  | entering i t =>
    cases p with
    | more u => exact hset _
    | done w =>
      cases w with
      | entered => simp [visited, Visit.via, via, setThread, List.map_set]
      | refused => exact hset none
      | finished => exact hset none
      | failed e => exact hset none
  | leaving i t =>
    cases p with
    | more u => exact hset _
    | done w => exact hset none

theorem via_visit (c : Crowd L T) (k : Nat) (v : Visit T) : (c.visit k v).via f = (c.via f).visit k (v.via f.task) := by
  simp only [visit, Visit.task_via, lock_via, f.lock_step, f.task_step, ← via_visited]
  rfl

theorem via_write (c : Crowd L T) (t : T) : (c.write t).via f = (c.via f).write (f.task ⟨0⟩ t) := by
  simp only [write, lock_via, tenure_via, f.lock_step, f.task_step, ← via_proceed]
  rfl

theorem via_step (c : Crowd L T) (e : Event) : (c.step e).via f = (c.via f).step e := by
  cases e with
  | enter k i =>
    simp only [step, getElem?_via, lock_via, f.enter]
    rcases c.threads[k]? with _ | _ | v
    · rfl
    · exact via_setThread f c k _
    · rfl
  | leave k i =>
    simp only [step, getElem?_via, lock_via, held_via, f.leave]
    rcases c.threads[k]? with _ | _ | v
    · rfl
    · cases c.held.contains i with
      | false => rfl
      | true => simp [via, setThread, List.map_set, Visit.via]
    · rfl
  | turn k =>
    simp only [step, getElem?_via]
    rcases c.threads[k]? with _ | _ | v
    · rfl
    · rfl
    · exact via_visit f c k v
  | block =>
    simp only [step, lock_via, tenure_via, f.block c.lock ⟨0⟩]
    cases c.tenure <;> rfl
  | unblock =>
    simp only [step, lock_via, tenure_via, f.unblock c.lock ⟨0⟩]
    cases c.tenure <;> rfl
  | writer =>
    simp only [step, tenure_via, task?_via]
    cases c.tenure.task? with
    | none => rfl
    | some t => exact via_write f c t
  | stumble =>
    simp only [step, lock_via, tenure_via, task?_via]
    cases c.tenure.task? with
    | none => rfl
    | some t =>
      simp only [Option.map_some, Option.bind_some, f.stumble]
      cases Stumbles.stumble? c.lock t with
      | none => rfl
      | some p =>
        simp only [Option.map_some, ← via_proceed]
        rfl

theorem via_run (c : Crowd L T) (es : List Event) : (c.run es).via f = (c.via f).run es := by
  induction es generalizing c with
  | nil => rfl
  | cons e es ih => rw [run_cons, run_cons, ih, via_step]

theorem via_around (n : Nat) (l : L) : (around n l).via f = around n (f.lock l) := by
  simp [via, around, Tenure.via]

end Crowd

/-! ## The locks of one word -/

namespace StripedLock

/-- A lock of one stripe. -/
def one (w : Word) : StripedLock := ⟨#[w], by simp⟩

@[simp] theorem word_one (w : Word) : (one w).word 0 = w := rfl

@[simp] theorem put_one (w v : Word) : (one w).put 0 v = one v := rfl

@[simp] theorem size_one (w : Word) : (one w).words.size = 1 := rfl

/-- All indices share the only stripe. -/
@[simp] theorem stripeOf_one (w : Word) (i : Index) : (one w).stripeOf i = 0 := by
  have := stripeOf_lt (one w) i
  simp at this
  omega

end StripedLock

namespace RetryLock

/-- What the task does to the only stripe of a striped lock. -/
def Task.onStripe (i : Index) : Task → StripedLock.Task
  | .enter e n => .enter i e n
  | .leave => .leave i
  | .block s => .block 0 s 0
  | .unblock => .unblock 0

/-- The writer's swap has succeeded, and its bit is not cleared yet. -/
def Task.raised : Task → Bool
  | .block s => s.raised
  | .unblock => true
  | _ => false

theorem raised_onStripe (i : Index) (t : Task) : (t.onStripe i).raised 0 = t.raised := by
  cases t <;> simp [Task.onStripe, StripedLock.Task.raised, Task.raised]

theorem step_onStripe (l : RetryLock) (i : Index) (t : Task) :
    (StripedLock.step (.one l.word) (t.onStripe i)).1 = .one (step l t).1.word ∧
      (StripedLock.step (.one l.word) (t.onStripe i)).2.1 = (step l t).2.1.map (Task.onStripe i) id := by
  cases t with
  | enter e n =>
    simp only [Task.onStripe, StripedLock.step, step, StripedLock.stripeOf_one, StripedLock.word_one]
    rcases e.step l.word with ⟨w, _ | _ | _ | _⟩ <;> exact ⟨rfl, rfl⟩
  | leave => simp [Task.onStripe, StripedLock.step, step]
  | block s =>
    simp only [Task.onStripe, StripedLock.step, step, StripedLock.word_one]
    rcases s.step l.word with ⟨w, _ | _ | ⟨n, y⟩⟩
    · exact ⟨rfl, rfl⟩
    · exact ⟨rfl, rfl⟩
    · have hy : y.toNat < 4294967296 := y.toNat_lt
      simp [hy]
  | unblock =>
    simp only [Task.onStripe, StripedLock.step, step, StripedLock.word_one]
    rcases l.word.unblock with ⟨w, _ | _⟩ <;> exact ⟨rfl, rfl⟩

/-- A lock of one stripe does the same. -/
def striped : Lock.Hom RetryLock StripedLock where
  lock l := .one l.word
  task := Task.onStripe
  enter _ _ := rfl
  leave _ _ := rfl
  block _ _ := rfl
  unblock _ _ := rfl
  lock_step l i t := (step_onStripe l i t).1
  task_step l i t := (step_onStripe l i t).2
  stumble l i t := by
    cases t with
    | block s =>
      show Option.map _ (s.stumble? l.word) = Option.map _ (Option.map _ (s.stumble? l.word))
      rcases s.stumble? l.word with _ | _ | _ <;> rfl
    | enter e n => rfl
    | leave => rfl
    | unblock => rfl

end RetryLock

namespace PatientLock

def Task.plain : Task → RetryLock.Task
  | .enter e n => .enter e n
  | .leave => .leave
  | .block s => .block s
  | .unblock => .unblock

def Task.raised (t : Task) : Bool := t.plain.raised

theorem step_plain (l : PatientLock) (t : Task) :
    (RetryLock.step ⟨l.word⟩ t.plain).1 = ⟨(step l t).1.word⟩ ∧
      (RetryLock.step ⟨l.word⟩ t.plain).2.1 = (step l t).2.1.map Task.plain id := by
  cases t with
  | enter e n =>
    simp only [Task.plain, RetryLock.step, step]
    rcases e.step l.word with ⟨w, _ | _ | _ | _⟩ <;> exact ⟨rfl, rfl⟩
  | leave => exact ⟨rfl, rfl⟩
  | block s =>
    simp only [Task.plain, RetryLock.step, step]
    rcases s.step l.word with ⟨w, _ | _ | _⟩ <;> exact ⟨rfl, rfl⟩
  | unblock => exact ⟨rfl, rfl⟩

/-- A plain lock does the same; only the pauses are missing. -/
def plain : Lock.Hom PatientLock RetryLock where
  lock l := ⟨l.word⟩
  task _ := Task.plain
  enter _ _ := rfl
  leave _ _ := rfl
  block _ _ := rfl
  unblock _ _ := rfl
  lock_step l _ t := (step_plain l t).1
  task_step l _ t := (step_plain l t).2
  stumble l i t := by
    cases t with
    | block s =>
      show Option.map _ (s.stumble? l.word) = Option.map _ (Option.map _ (s.stumble? l.word))
      rcases s.stumble? l.word with _ | _ | _ <;> rfl
    | enter e n => rfl
    | leave => rfl
    | unblock => rfl

def striped : Lock.Hom PatientLock StripedLock := plain.comp RetryLock.striped

end PatientLock

/-! ## What a lock of one word promises -/

namespace Crowd

variable {L T : Type} [Lock L T] [Stumbles L T]

/-- What a lock of one word promises its readers and its writer; `raised` tells which of the writer's
    tasks come between the swap that sets its bit and the access that clears it. -/
structure Exclusive (word : L → Word) (raised : T → Bool) (c : Crowd L T) : Prop where
  word_eq : (word c.lock).bits.toNat = c.readers + if c.tenure.holds raised then 0x40000000 else 0
  readers_lt : c.readers < 0x40000000
  /-- From the return of block to the last access of unblock nobody is inside, and no reader on
      its way gets in. -/
  alone : c.tenure.granted = true → c.readers = 0 ∧
    ∀ (k : Nat) i t, c.threads[k]? = some (some (.entering i t)) → (Lock.step c.lock t).2.1 ≠ .done .entered
  /-- As long as the bit stays set, whoever acts, the readers do not get more. -/
  falling : ∀ es, (∀ fs, fs <+: es → (c.run fs).tenure.holds raised = true) → (c.run es).readers ≤ c.readers
  /-- A release does not break off. -/
  leaving : ∀ (k : Nat) i t, c.threads[k]? = some (some (.leaving i t)) → (Lock.step c.lock t).2.1 = .done .finished
  /-- An unblock does not break off. -/
  unblocking : ∀ t, c.tenure = .unblocking t → (Lock.step c.lock t).2.1 = .done .finished

theorem readersAt_via {L' T' : Type} [Lock L' T'] [Stumbles L' T'] (f : Lock.Hom L L') (c : Crowd L T)
    (p : Index → Bool) : (c.via f).readersAt p = c.readersAt p := by
  have hv : Visit.leaves p ∘ Option.map (Visit.via f.task) = Visit.leaves p := by
    funext v
    rcases v with _ | _ | _ <;> rfl
  simp [readersAt, via, List.countP_map, hv]

theorem holds_via {T' : Type} {g : T → T'} {has : T' → Bool} {has' : T → Bool} (h : ∀ t, has (g t) = has' t)
    (r : Tenure T) : (r.via g).holds has = r.holds has' := by
  cases r with
  | out => rfl
  | inside => rfl
  | blocking t => exact h t
  | unblocking t => exact h t
  | broken t => exact h t

section
variable {f : Lock.Hom L StripedLock} {word : L → Word} {raised : T → Bool} (hw : ∀ l, f.lock l = .one (word l))
  (hr : ∀ t, (f.task ⟨0⟩ t).raised 0 = raised t)

include hw in
theorem readersOn_via (c : Crowd L T) : StripedLock.readersOn (c.via f) 0 = c.readers := by
  have hm : (c.via f).lock.maps 0 = fun _ => true := by
    funext i
    simp [StripedLock.maps, hw]
  rw [StripedLock.readersOn, hm, readersAt_via]
  rfl

include hr in
theorem raised_via (c : Crowd L T) : StripedLock.raised (c.via f).tenure 0 = c.tenure.holds raised :=
  holds_via hr c.tenure

include hw in
/-- The only stripe is the writer's alone from the return of block to the last access of unblock. -/
theorem owns_via {c : Crowd L T} (h : StripedLock.Booked (c.via f)) (hg : c.tenure.granted = true) :
    StripedLock.owns (c.via f).tenure 0 = true := by
  cases ht : c.tenure with
  | unblocking t =>
    have htv : (c.via f).tenure = .unblocking (f.task ⟨0⟩ t) := by rw [tenure_via, ht]; rfl
    obtain ⟨k, hk, hk0, -⟩ := StripedLock.unblocking_goes_on h htv
    rw [lock_via, hw, StripedLock.size_one, Nat.lt_one_iff] at hk0
    rw [htv, hk, hk0]
    rfl
  | inside => rw [tenure_via, ht]; rfl
  | out => rw [ht] at hg; cases hg
  | blocking t => rw [ht] at hg; cases hg
  | broken t => rw [ht] at hg; cases hg

include hw hr in
theorem readers_run_le {c : Crowd L T} (h : StripedLock.Booked (c.via f)) {es : List Event}
    (hes : ∀ fs, fs <+: es → (c.run fs).tenure.holds raised = true) : (c.run es).readers ≤ c.readers := by
  induction es generalizing c with
  | nil => exact Nat.le_refl _
  | cons e es ih =>
    have hs : 0 < (c.via f).lock.words.size := by
      rw [lock_via, hw]
      exact Nat.one_pos
    have hc : StripedLock.raised (c.via f).tenure 0 = true := by
      rw [raised_via hr]
      exact hes [] List.nil_prefix
    have hstep := StripedLock.readersOn_step_le h hs hc e
    rw [← via_step, readersOn_via hw, readersOn_via hw] at hstep
    have hrest : ((c.step e).run es).readers ≤ (c.step e).readers := by
      refine ih ?_ fun fs hfs => hes (e :: fs) (List.cons_prefix_cons.mpr ⟨rfl, hfs⟩)
      rw [via_step]
      exact StripedLock.booked_step _ e h
    exact Nat.le_trans hrest hstep

theorem done_of_task_step (f : Lock.Hom L StripedLock) {l : L} {i : Index} {t : T} {v : Verdict}
    (h : (StripedLock.step (f.lock l) (f.task i t)).2.1 = .done v) : (Lock.step l t).2.1 = .done v := by
  have hx := (f.task_step l i t).symm.trans h
  cases hp : (Lock.step l t).2.1 with
  | more u =>
    rw [hp] at hx
    cases hx
  | done w =>
    rw [hp] at hx
    cases hx
    rfl

variable (f) in
include hw hr in
/-- The books of the only stripe are those of every lock that acts like it. -/
theorem exclusive_of_booked {c : Crowd L T} (h : StripedLock.Booked (c.via f)) : c.Exclusive word raised := by
  have hs : 0 < (c.via f).lock.words.size := by
    rw [lock_via, hw]
    exact Nat.one_pos
  have hc := h.counts 0 hs
  rw [readersOn_via hw, raised_via hr, lock_via, hw, StripedLock.word_one] at hc
  have hthread : ∀ (k : Nat) v, c.threads[k]? = some (some v) → (c.via f).threads[k]? = some (some (v.via f.task)) := by
    intro k v hk
    rw [getElem?_via, hk]
    rfl
  refine ⟨hc.bits, hc.lt, ?_, fun _ hes => readers_run_le hw hr h hes, ?_, ?_⟩
  · intro hg
    have ho := owns_via hw h hg
    have hown : ∀ j < (c.via f).lock.words.size, (c.via f).lock.word j = .owned := by
      intro j hj
      have hj0 : j = 0 := by
        rw [lock_via, hw, StripedLock.size_one] at hj
        omega
      exact h.eq_owned hj (hj0 ▸ ho)
    refine ⟨by rw [← readersOn_via hw]; exact h.alone 0 hs ho, ?_⟩
    intro k i t hk he
    rcases (StripedLock.entering_refused h hown (hthread k _ hk)).2 with hx | hx
    · rw [done_of_task_step f hx] at he
      cases he
    · rw [done_of_task_step f hx] at he
      cases he
  · intro k i t hk
    exact done_of_task_step f (StripedLock.leaving_finishes h (hthread k _ hk))
  · intro t ht
    have htv : (c.via f).tenure = .unblocking (f.task ⟨0⟩ t) := by rw [tenure_via, ht]; rfl
    obtain ⟨k, -, -, hk⟩ := StripedLock.unblocking_goes_on h htv
    have hlast : ¬k + 1 < (c.via f).lock.words.size := by
      rw [lock_via, hw, StripedLock.size_one]
      omega
    rw [if_neg hlast] at hk
    exact done_of_task_step f hk

end

end Crowd

/-- However many threads and steps, and whatever the pauses: both locks of one word keep
    what they promise. -/
theorem word_locks_exclude (n : Nat) (policy : Policy) (es : List Crowd.Event) :
    ((Crowd.around n RetryLock.new).run es).Exclusive (·.word) RetryLock.Task.raised ∧
      ((Crowd.around n (PatientLock.new policy)).run es).Exclusive (·.word) PatientLock.Task.raised := by
  have hb := StripedLock.run_booked (StripedLock.booked_around n 0) es
  refine ⟨Crowd.exclusive_of_booked RetryLock.striped (fun _ => rfl) (RetryLock.raised_onStripe ⟨0⟩) ?_,
    Crowd.exclusive_of_booked PatientLock.striped (fun _ => rfl) (fun t => RetryLock.raised_onStripe ⟨0⟩ t.plain) ?_⟩
  · rw [Crowd.via_run, Crowd.via_around]
    exact hb
  · rw [Crowd.via_run, Crowd.via_around]
    exact hb

/-- A reader gets in, the writer has to poll, and another thread gives the read lock back. -/
example :
    let c := (Crowd.around 2 RetryLock.new).run
      [.enter 0 ⟨3⟩, .turn 0, .turn 0, .block, .stumble, .writer, .writer, .writer, .leave 1 ⟨3⟩, .turn 1, .writer]
    c.lock.word = .owned ∧ c.tenure.granted = true ∧ c.readers = 0 := by decide

end BusyWait
