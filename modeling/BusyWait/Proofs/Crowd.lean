import BusyWait.Lock.Counted
import BusyWait.Lock.Patient
import BusyWait.Lock.Striped
import BusyWait.Proofs.Word.Counts

/-
  BusyWait.Proofs.Crowd — any number of threads around one lock.

  A thread that is in no call may begin to enter with any index, or give back a read lock
  that is out, with the index that it was taken with. A read lock does not care which of
  the threads gives it back. Beside them acts one writer at a time: it begins to block
  only where no writer is, and to unblock only once its block has returned. A call that
  breaks off ends the writer's time for good.

  Each event begins a call or makes one access of one call, so the runs are the
  interleavings of the accesses. What is not possible leaves all as it was, so that every
  list of events is a run. A weak swap may also fail for no reason (`stumble`).

  `readersAt p` counts the read locks with an index in `p` that were taken and whose
  release has not made its access yet.
-/

namespace BusyWait

/-- Where a lock's task may fail a weak swap for no reason: what is left to do then. -/
class Stumbles (L : Type) (T : outParam Type) where
  stumble? : L → T → Option (Progress T Verdict)

namespace Crowd

/-- A reader's call in progress, and its index. -/
inductive Visit (T : Type) where
  | entering (i : Index) (t : T)
  | leaving (i : Index) (t : T)

def Visit.task {T : Type} : Visit T → T
  | .entering _ t | .leaving _ t => t

def Visit.index {T : Type} : Visit T → Index
  | .entering i _ | .leaving i _ => i

/-- Where the writer is. -/
inductive Tenure (T : Type) where
  | out
  | blocking (t : T)
  /-- Its block has returned. -/
  | inside
  | unblocking (t : T)
  /-- Broke off at `t`. -/
  | broken (t : T)

inductive Event where
  /-- Thread `k` begins to enter. -/
  | enter (k : Nat) (i : Index)
  /-- Thread `k` begins to give a read lock back. -/
  | leave (k : Nat) (i : Index)
  /-- The next access of thread `k`. -/
  | turn (k : Nat)
  | block
  | unblock
  /-- The next access of the writer. -/
  | writer
  /-- The writer's weak swap fails for no reason. -/
  | stumble
  deriving DecidableEq, Repr

/-- Thread `k` is to begin a call. -/
def Event.begins (k : Nat) : Event → Bool
  | .enter j _ | .leave j _ => j == k
  | _ => false

/-- The writer's call in progress. -/
def Tenure.task? {T : Type} : Tenure T → Option T
  | .blocking t | .unblocking t => some t
  | _ => none

/-- Where the writer is after an access of its call. -/
def Tenure.proceed {T : Type} : Tenure T → Progress T Verdict → Tenure T
  | .blocking _, .more t => .blocking t
  | .blocking _, .done .finished => .inside
  | .unblocking _, .more t => .unblocking t
  | .unblocking _, .done .finished => .out
  | .blocking t, .done _ | .unblocking t, .done _ => .broken t
  | w, _ => w

/-- Whether a writer has what `has` says of the call it is in; once its block has returned it has all. -/
def Tenure.holds {T : Type} (has : T → Bool) : Tenure T → Bool
  | .out => false
  | .inside => true
  | .blocking t | .unblocking t | .broken t => has t

/-- The writer's block has returned, and its unblock has not ended. -/
def Tenure.granted {T : Type} : Tenure T → Bool
  | .inside | .unblocking _ => true
  | _ => false

/-- A release in progress with an index in `p`. -/
def Visit.leaves {T : Type} (p : Index → Bool) : Option (Visit T) → Bool
  | some (.leaving i _) => p i
  | _ => false

end Crowd

structure Crowd (L T : Type) where
  lock : L
  /-- Each thread's call in progress. -/
  threads : List (Option (Crowd.Visit T))
  /-- The indices of the read locks that are out and not being given back. -/
  held : List Index
  tenure : Crowd.Tenure T

namespace Crowd

variable {L T : Type}

/-- `n` threads around a lock, and nobody in a call. -/
def around (n : Nat) (l : L) : Crowd L T := ⟨l, .replicate n none, [], .out⟩

def readersAt (c : Crowd L T) (p : Index → Bool) : Nat :=
  c.held.countP p + c.threads.countP (Visit.leaves p)

def readers (c : Crowd L T) : Nat := c.readersAt fun _ => true

def setThread (c : Crowd L T) (k : Nat) (v : Option (Visit T)) : Crowd L T :=
  { c with threads := c.threads.set k v }

/-- Where a reader's call is after an access that leaves `p`. -/
def visited (c : Crowd L T) (k : Nat) : Visit T → Progress T Verdict → Crowd L T
  | .entering i _, .more t => c.setThread k (some (.entering i t))
  | .entering i _, .done .entered => { c.setThread k none with held := i :: c.held }
  | .leaving i _, .more t => c.setThread k (some (.leaving i t))
  | _, .done _ => c.setThread k none

theorem forall_setThread {P : Option (Visit T) → Prop} {c : Crowd L T} {k : Nat} {u : Option (Visit T)}
    (hc : ∀ v ∈ c.threads, P v) (hu : P u) : ∀ v ∈ (c.setThread k u).threads, P v := by
  intro v hv
  rcases List.mem_or_eq_of_mem_set hv with hv | rfl
  · exact hc v hv
  · exact hu

section
variable [Lock L T] [Stumbles L T]

/-- The next access of a reader's call. -/
def visit (c : Crowd L T) (k : Nat) (v : Visit T) : Crowd L T :=
  match Lock.step c.lock v.task with
  | (l, p, _) => { c.visited k v p with lock := l }

/-- The next access of the writer's call. -/
def write (c : Crowd L T) (t : T) : Crowd L T :=
  match Lock.step c.lock t with
  | (l, p, _) => { c with lock := l, tenure := c.tenure.proceed p }

def step (c : Crowd L T) : Event → Crowd L T
  | .enter k i =>
    match c.threads[k]? with
    | some none => c.setThread k (some (.entering i (Lock.enter c.lock i)))
    | _ => c
  | .leave k i =>
    match c.threads[k]?, c.held.contains i with
    | some none, true => { c.setThread k (some (.leaving i (Lock.leave c.lock i))) with held := c.held.erase i }
    | _, _ => c
  | .turn k =>
    match c.threads[k]? with
    | some (some v) => c.visit k v
    | _ => c
  | .block =>
    match c.tenure with
    | .out => { c with tenure := .blocking (Lock.block c.lock) }
    | _ => c
  | .unblock =>
    match c.tenure with
    | .inside => { c with tenure := .unblocking (Lock.unblock c.lock) }
    | _ => c
  | .writer =>
    match c.tenure.task? with
    | some t => c.write t
    | none => c
  | .stumble =>
    match c.tenure.task?.bind (Stumbles.stumble? c.lock) with
    | some p => { c with tenure := c.tenure.proceed p }
    | none => c

def run (c : Crowd L T) (es : List Event) : Crowd L T := es.foldl step c

@[simp] theorem run_cons (c : Crowd L T) (e : Event) (es : List Event) : c.run (e :: es) = (c.step e).run es := rfl

/-- An event leaves the lock alone, or is one access of it. -/
theorem lock_step (c : Crowd L T) (e : Event) :
    (c.step e).lock = c.lock ∨ ∃ t, (c.step e).lock = (Lock.step c.lock t).1 := by
  cases e with
  | turn k =>
    simp only [step]
    split
    · exact .inr ⟨_, rfl⟩
    · exact .inl rfl
  | writer =>
    simp only [step]
    split
    · exact .inr ⟨_, rfl⟩
    · exact .inl rfl
  | enter k i => exact .inl (by simp only [step]; split <;> rfl)
  | leave k i => exact .inl (by simp only [step]; split <;> rfl)
  | block => exact .inl (by simp only [step]; split <;> rfl)
  | unblock => exact .inl (by simp only [step]; split <;> rfl)
  | stumble => exact .inl (by simp only [step]; split <;> rfl)

/-- What a thread is in changes only as it begins a call and by its own accesses. -/
theorem thread_step {c : Crowd L T} {k : Nat} {e : Event} (hb : e.begins k = false) (ht : e ≠ .turn k) :
    (c.step e).threads[k]? = c.threads[k]? := by
  have set_ne : ∀ {j} (v : Option (Visit T)), j ≠ k → (c.threads.set j v)[k]? = c.threads[k]? :=
    fun v hj => List.getElem?_set_ne hj
  cases e with
  | enter j i =>
    have hj : j ≠ k := by simpa [Event.begins] using hb
    simp only [step]
    split
    · exact set_ne _ hj
    · rfl
  | leave j i =>
    have hj : j ≠ k := by simpa [Event.begins] using hb
    simp only [step]
    split
    · exact set_ne _ hj
    · rfl
  | turn j =>
    have hj : j ≠ k := fun e => ht (e ▸ rfl)
    simp only [step]
    split
    · rename_i v _
      cases v with
      | entering i t =>
        rcases h : (Lock.step c.lock t).2.1 with u | w
        · simp only [visit, Visit.task, visited, h]
          exact set_ne _ hj
        · cases w <;> (simp only [visit, Visit.task, visited, h]; exact set_ne _ hj)
      | leaving i t =>
        rcases h : (Lock.step c.lock t).2.1 with u | w
        · simp only [visit, Visit.task, visited, h]
          exact set_ne _ hj
        · simp only [visit, Visit.task, visited, h]
          exact set_ne _ hj
    · rfl
  | block => simp only [step]; split <;> rfl
  | unblock => simp only [step]; split <;> rfl
  | writer => simp only [step]; split <;> rfl
  | stumble => simp only [step]; split <;> rfl

/-- A thread that is in no call stays so until it begins one. -/
theorem idle_step {c : Crowd L T} {k : Nat} {e : Event} (hk : c.threads[k]? = some none) (hb : e.begins k = false) :
    (c.step e).threads[k]? = some none := by
  by_cases ht : e = .turn k
  · subst ht
    simp only [step, hk]
  · rw [thread_step hb ht, hk]

theorem idle_run {c : Crowd L T} {k : Nat} {es : List Event} (hk : c.threads[k]? = some none)
    (hb : ∀ e ∈ es, e.begins k = false) : (c.run es).threads[k]? = some none := by
  induction es generalizing c with
  | nil => exact hk
  | cons e es ih =>
    exact ih (idle_step hk (hb e List.mem_cons_self)) fun f hf => hb f (List.mem_cons_of_mem _ hf)

/-- What every event keeps, every run keeps. -/
theorem run_keeps {P : Crowd L T → Prop} (hs : ∀ c e, P c → P (c.step e)) {c : Crowd L T} (h : P c) (es : List Event) :
    P (c.run es) := by
  induction es generalizing c with
  | nil => exact h
  | cons e es ih => exact ih (hs c e h)

end

/-! ## Counting readers -/

@[simp] theorem leaves_none (p : Index → Bool) : Visit.leaves p (none : Option (Visit T)) = false := rfl

@[simp] theorem leaves_entering (p : Index → Bool) (i : Index) (t : T) :
    Visit.leaves p (some (.entering i t)) = false := rfl

@[simp] theorem leaves_leaving (p : Index → Bool) (i : Index) (t : T) :
    Visit.leaves p (some (.leaving i t)) = p i := rfl

theorem countP_set_add {α : Type} {l : List α} {k : Nat} {a b : α} (p : α → Bool) (h : l[k]? = some a) :
    (l.set k b).countP p + (p a).toNat = l.countP p + (p b).toNat := by
  obtain ⟨hk, rfl⟩ := List.getElem?_eq_some_iff.mp h
  have hle : p l[k] = true → 0 < l.countP p := fun hp => List.countP_pos_iff.mpr ⟨_, List.getElem_mem hk, hp⟩
  rw [List.countP_set hk]
  cases ha : p l[k] with
  | true => have := hle ha; cases p b <;> simp <;> omega
  | false => cases p b <;> simp

theorem countP_erase_add {l : List Index} {i : Index} (p : Index → Bool) (h : i ∈ l) :
    (l.erase i).countP p + (p i).toNat = l.countP p := by
  rw [(List.perm_cons_erase h).countP_eq, List.countP_cons]
  cases p i <;> rfl

/-- A thread's call begins, goes on or ends. -/
theorem readersAt_setThread {c : Crowd L T} {k : Nat} {u v : Option (Visit T)} {p : Index → Bool}
    (h : c.threads[k]? = some u) :
    (c.setThread k v).readersAt p + (Visit.leaves p u).toNat = c.readersAt p + (Visit.leaves p v).toNat := by
  have := countP_set_add (b := v) (Visit.leaves p) h
  simp only [readersAt, setThread]
  omega

/-- A read lock that begins to be given back is still out. -/
theorem readersAt_leave {c : Crowd L T} {k : Nat} {i : Index} {t : T} (p : Index → Bool)
    (hk : c.threads[k]? = some none) (hi : i ∈ c.held) :
    readersAt { c.setThread k (some (.leaving i t)) with held := c.held.erase i } p = c.readersAt p := by
  have hs := readersAt_setThread (v := some (.leaving i t)) (p := p) hk
  have he := countP_erase_add p hi
  simp only [readersAt, setThread, leaves_none, leaves_leaving, Bool.toNat_false] at hs ⊢
  omega

theorem readersAt_entered {c : Crowd L T} {k : Nat} {i : Index} {t : T} {l : L} (p : Index → Bool)
    (hk : c.threads[k]? = some (some (.entering i t))) :
    readersAt { c.setThread k none with lock := l, held := i :: c.held } p = c.readersAt p + (p i).toNat := by
  have := readersAt_setThread (v := none) (p := p) hk
  simp only [readersAt, setThread, leaves_none, leaves_entering, Bool.toNat_false, List.countP_cons] at this ⊢
  cases p i <;> simp <;> omega

theorem readersAt_left {c : Crowd L T} {k : Nat} {i : Index} {t : T} {l : L} (p : Index → Bool)
    (hk : c.threads[k]? = some (some (.leaving i t))) :
    readersAt { c.setThread k none with lock := l } p + (p i).toNat = c.readersAt p := by
  show (c.setThread k none).readersAt p + _ = _
  simpa using readersAt_setThread (v := none) (p := p) hk

/-- Only the access of a reader's call counts anybody in or out. -/
theorem readersAt_step [Lock L T] [Stumbles L T] {c : Crowd L T} {e : Event} (p : Index → Bool)
    (he : ∀ k, e ≠ .turn k) : (c.step e).readersAt p = c.readersAt p := by
  cases e with
  | turn k => exact absurd rfl (he k)
  | enter k i =>
    simp only [step]
    split
    · rename_i hk
      simpa using readersAt_setThread (v := some (.entering i (Lock.enter c.lock i))) (p := p) hk
    · rfl
  | leave k i =>
    simp only [step]
    split
    · rename_i hk hi
      exact readersAt_leave p hk (List.contains_iff_mem.mp hi)
    · rfl
  | block => simp only [step]; split <;> rfl
  | unblock => simp only [step]; split <;> rfl
  | writer => simp only [step]; split <;> rfl
  | stumble => simp only [step]; split <;> rfl

end Crowd

/-! ## Weak swaps -/

instance : Stumbles RetryLock RetryLock.Task where
  stumble? l
    | .block s => (s.stumble? l.word).map (·.map .block .failed)
    | _ => none

instance : Stumbles PatientLock PatientLock.Task where
  stumble? l
    | .block s => (s.stumble? l.word).map (·.map .block .failed)
    | _ => none

instance : Stumbles StripedLock StripedLock.Task where
  stumble? l
    | .block k s yields => (s.stumble? (l.word k)).map (·.map (.block k · yields) .failed)
    | _ => none

/-- It swaps nothing. -/
instance : Stumbles CountedLock CountedLock.Task where
  stumble? _ _ := none

end BusyWait
