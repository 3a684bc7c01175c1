import BusyWait.Proofs.Lock.Writers

/-
  BusyWait.Proofs.Lock.Runs — runs that refuse some operations, and runs that refuse none.

  A strict run is what the program does: it refuses to begin what it could not finish. A
  free run begins that too, and lets even a thread act that waits. What holds of both is
  stated with `strict` as a parameter.

  - `State.programmed`: the strict run is the program's; the free one goes through the
    rounds, and is the program's too where nothing is refused.
  - `State.ready`: what an operation of a free run begins with.
-/

namespace BusyWait.LockStep.Locks

variable {L T : Type} [Lock L T]

namespace State

/-- Whether an operation is refused. -/
def refuse (strict : Bool) (s : State L T) (t : Thread) (op : Op) : State L T × Option Refusal :=
  if strict && s.isWaiting t then (s, some .threadWaiting)
  else ((s.consider t op).1, if strict then (s.consider t op).2 else none)

/-- The thread is alive for its operation, unless it exits. -/
def begun (s : State L T) (t : Thread) (op : Op) : State L T :=
  if op = .exit then s else { s with team := s.team.join t }

def attemptOf (strict : Bool) (s : State L T) (t : Thread) (op : Op) : State L T × Reply × List Line :=
  match s.refuse strict t op with
  | (s, some r) => (s, .refused r, [])
  | (s, none) => perform (s.begun t op) t op

def stepOf (strict : Bool) (s : State L T) (t : Thread) (op : Op) : State L T × Report :=
  let (s, r, log) := s.attemptOf strict t op
  let (s, done) := s.settle (s.waiting.length + 1)
  (s, ⟨r, log, done.mergeSort byThread, Lock.readers s.lock, Lock.isBlocked s.lock,
    Lock.stripes? s.lock⟩)

def runOf (strict : Bool) (s : State L T) : List (Thread × Op) → State L T × List Report
  | [] => (s, [])
  | (t, op) :: ops =>
    let (s, r) := s.stepOf strict t op
    let (s, rs) := runOf strict s ops
    (s, r :: rs)

variable (s : State L T)

theorem attemptOf_true (t : Thread) (op : Op) : s.attemptOf true t op = s.attempt t op := by
  unfold attemptOf attempt refuse
  by_cases hw : s.isWaiting t = true
  · simp only [hw, Bool.and_true, if_true]
  · simp only [hw, Bool.and_false, Bool.false_eq_true, if_false, if_true]
    rcases s.consider t op with ⟨s', _ | r⟩ <;> rfl

theorem stepOf_true (t : Thread) (op : Op) : s.stepOf true t op = s.step t op := by
  unfold stepOf step
  rw [attemptOf_true]

theorem runOf_true (ops : List (Thread × Op)) : s.runOf true ops = s.runAll ops := by
  induction ops generalizing s with
  | nil => rfl
  | cons e ops ih => simp only [runOf, runAll, stepOf_true, ih]

theorem runOf_false (ops : List (Thread × Op)) : (s.runOf false ops).1 = s.rounds ops := by
  induction ops generalizing s with
  | nil => rfl
  | cons e ops ih => exact ih _

theorem runOf_begun {ops : List (Thread × Op)} (h : s.Begun ops) : s.runOf false ops = s.runAll ops := by
  induction ops generalizing s with
  | nil => rfl
  | cons e ops ih =>
    obtain ⟨t, op⟩ := e
    obtain ⟨⟨hw, hc⟩, hrest⟩ := h
    have hattempt : s.attemptOf false t op = s.attempt t op := by
      rw [← attemptOf_true]
      simp only [attemptOf, refuse, hw, hc, Bool.and_false, Bool.false_eq_true, if_false, ite_self]
    have hstep : s.stepOf false t op = s.step t op := by
      unfold stepOf step
      rw [hattempt]
    have hround : (s.round t op).1 = (s.step t op).1 := (step_round hw hc).1.symm
    rw [hround] at hrest
    simp only [runOf, runAll, hstep, ih _ hrest]

/-- How runs from `s` stand to those of the program. -/
structure Programmed : Prop where
  attempt : ∀ t op, s.attemptOf true t op = s.attempt t op
  step : ∀ t op, s.stepOf true t op = s.step t op
  strict : ∀ ops, s.runOf true ops = s.runAll ops
  free : ∀ ops, s.Begun ops → s.runOf false ops = s.runAll ops
  rounds : ∀ ops, (s.runOf false ops).1 = s.rounds ops

theorem programmed : s.Programmed :=
  ⟨s.attemptOf_true, s.stepOf_true, s.runOf_true, fun _ => s.runOf_begun, s.runOf_false⟩

/-! ## What an operation begins with -/

/-- The thread may have drawn its index, and is alive. -/
def ready (t : Thread) (op : Op) : State L T := (s.consider t op).1.begun t op

theorem book_indexFor (t : Thread) : (s.indexFor t).1.team.book = s.team.book := by
  unfold indexFor
  split <;> rfl

theorem book_consider (t : Thread) (op : Op) : (s.consider t op).1.team.book = s.team.book := by
  cases op with
  | leave n =>
    unfold consider
    by_cases hw : s.waiting.isEmpty = true
    · simp only [hw, ↓reduceIte]
    · simp only [hw]
      exact book_indexFor s t
  | _ => rfl

theorem alive_indexFor {t : Thread} (ht : t ∈ s.team.alive) : (s.indexFor t).1.team.alive = s.team.alive := by
  unfold indexFor
  split
  · exact List.insert_of_mem ht
  · rfl

theorem ready_exit (t : Thread) : s.ready t .exit = s := rfl

theorem ready_eq {t : Thread} {op : Op} (h : op ≠ .exit) :
    s.ready t op = { (s.consider t op).1 with team := (s.consider t op).1.team.join t } := if_neg h

theorem alive_ready {t : Thread} {op : Op} (h : op ≠ .exit) : (s.ready t op).team.alive = s.team.alive.insert t := by
  rw [ready_eq s h]
  show (s.consider t op).1.team.alive.insert t = _
  cases op with
  | leave n =>
    unfold consider
    by_cases hw : s.waiting.isEmpty = true
    · simp only [hw, ↓reduceIte]
    · simp only [hw]
      show (s.indexFor t).1.team.alive.insert t = _
      unfold indexFor
      split
      · exact List.insert_of_mem List.mem_insert_self
      · rfl
  | _ => rfl

theorem book_ready (t : Thread) (op : Op) : (s.ready t op).team.book = s.team.book := by
  by_cases h : op = .exit
  · rw [h, ready_exit]
  · rw [ready_eq s h]
    exact book_consider s t op

theorem alike_ready (t : Thread) (op : Op) : Alike t s (s.ready t op) := by
  have hc := alike_consider s t op
  by_cases h : op = .exit
  · rw [h, ready_exit]
    exact ⟨rfl, rfl, rfl, rfl⟩
  · have hj := alike_join (s.consider t op).1 t
    rw [ready_eq s h]
    exact ⟨hj.lock.trans hc.lock, hj.waiting.trans hc.waiting, hj.guards.trans hc.guards, hj.own.trans hc.own⟩

theorem attemptOf_false (t : Thread) (op : Op) : s.attemptOf false t op = (s.ready t op).perform t op := rfl

end State

end BusyWait.LockStep.Locks
