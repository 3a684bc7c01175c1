import Mathlib.Algebra.Order.BigOperators.Group.List
import BusyWait.Proofs.Lock.Served

/-
  BusyWait.Proofs.Lock.Beside — what goes on beside the readers of a striped lock.

  Writers come, wait and go, and threads draw indices, ask and end. Of the words that
  changes the writer's bit only, and a thread has the index that it has drawn until it
  ends.

  - `addReaders_sum`: the total of the stripes is exact or breaks off, in whatever state.
  - `Counted.run_writes`: a writer leaves the counts of readers alone.
  - `Tidy.perform`, `Tidy.settle`: so does every operation that is not for a reader, and
    the writers that it lets through.
  - `attempt_kept`: no operation but its own end takes a thread's index from it.
-/

namespace BusyWait

/-! ## Totals -/

namespace StripedLock

theorem addReaders_sum (ws : List Word) (n : UInt32) :
    (n.toNat + (ws.map (·.readers.toNat)).sum < 2 ^ 32 →
      ∃ m, addReaders n ws = .ok m ∧ m.toNat = n.toNat + (ws.map (·.readers.toNat)).sum) ∧
    (2 ^ 32 ≤ n.toNat + (ws.map (·.readers.toNat)).sum → addReaders n ws = .error .sumOverflow) := by
  induction ws generalizing n with
  | nil =>
    have hlt := n.toNat_lt
    refine ⟨fun _ => ⟨n, rfl, rfl⟩, ?_⟩
    intro h
    simp only [List.map_nil, List.sum_nil] at h
    omega
  | cons w ws ih =>
    unfold addReaders
    simp only [List.map_cons, List.sum_cons]
    by_cases hw : n.toNat + w.readers.toNat < 0x100000000
    · have hadd : (n + w.readers).toNat = n.toNat + w.readers.toNat := by
        rw [UInt32.toNat_add]
        exact Nat.mod_eq_of_lt hw
      have ih := ih (n + w.readers)
      rw [hadd, Nat.add_assoc] at ih
      rw [if_pos hw]
      exact ih
    · rw [if_neg hw]
      refine ⟨?_, fun _ => rfl⟩
      intro h
      omega

theorem toList_words (l : StripedLock) : l.words.toList = (List.range l.words.size).map l.word := by
  refine List.ext_getElem (by simp) ?_
  intro k hk _
  have hk' : k < l.words.size := hk
  simp [word, hk']

/-- The readers of all stripes. -/
def total (l : StripedLock) : Nat := ((List.range l.words.size).map fun k => (l.word k).readers.toNat).sum

theorem readers_total (l : StripedLock) :
    (l.total < 2 ^ 32 → ∃ m, l.readers = .ok m ∧ m.toNat = l.total) ∧
      (2 ^ 32 ≤ l.total → l.readers = .error .sumOverflow) := by
  have h := addReaders_sum l.words.toList 0
  have hsum : (l.words.toList.map (·.readers.toNat)).sum = l.total := by
    rw [toList_words, List.map_map]
    rfl
  rw [hsum, UInt32.toNat_zero, Nat.zero_add] at h
  exact h

theorem readers_le (w : Word) : w.readers.toNat ≤ 0x3FFFFFFF := by
  rw [Word.toNat_readers]
  omega

/-- Four stripes cannot count too many. -/
theorem total_lt {l : StripedLock} (h : l.words.size ≤ 4) : l.total < 2 ^ 32 := by
  have hle := List.sum_le_card_nsmul ((List.range l.words.size).map fun k => (l.word k).readers.toNat) 0x3FFFFFFF <| by
    intro m hm
    obtain ⟨k, -, rfl⟩ := List.mem_map.mp hm
    exact readers_le _
  rw [List.length_map, List.length_range, Nat.nsmul_eq_mul] at hle
  show List.sum _ < _
  omega

/-- Every word counts as many readers as it can. -/
def crammed (n : Nat) : StripedLock := ⟨.replicate (n + 1) ⟨Word.maxReaders⟩, by simp⟩

theorem total_crammed (n : Nat) : (crammed n).total = (n + 1) * 0x3FFFFFFF := by
  have hsum : ((crammed n).words.toList.map (·.readers.toNat)).sum = (crammed n).total := by
    rw [toList_words, List.map_map]
    rfl
  rw [← hsum]
  simp [crammed]
  decide

/-! ## Writers leave readers alone -/

/-- Each of the words is in order and counts so many readers. -/
structure Counted (n : Nat) (c : Nat → Nat) (l : StripedLock) : Prop where
  size : l.words.size = n + 1
  word : ∀ k < n + 1, ∃ b, (l.word k).Counts (c k) b

namespace Task

/-- A writer's task. -/
def Writes : Task → Prop
  | .block _ _ _ | .unblock _ => True
  | _ => False

end Task

/-- A writer that goes on, or ends otherwise than by the release of a reader who was not there. -/
def Apart : Progress Task Verdict → Prop
  | .more t => t.Writes
  | .done v => v ≠ .failed .noReaders

variable {n : Nat} {c : Nat → Nat} {l : StripedLock}

/-- A word that counts as before takes the place of another. -/
theorem Counted.put (h : Counted n c l) {k : Nat} {w : Word} (hw : k < n + 1 → ∃ b, w.Counts (c k) b) :
    Counted n c (l.put k w) := by
  refine ⟨(size_put l k w).trans h.size, ?_⟩
  intro j hj
  by_cases hk : k = j
  · subst hk
    rw [word_put _ _ _ _ (h.size ▸ hj), if_pos rfl]
    exact hw hj
  · rw [word_put_of_ne _ hk]
    exact h.word j hj

end StripedLock

/-- A writer's session breaks off only where a count does not fit. -/
theorem Session.step_fault {s : Session} {w v : Word} {f : Fault} (h : s.step w = (v, .done (.error f))) :
    f = .sumOverflow := by
  cases s with
  | request r =>
    cases r with
    | look => cases h
    | swap seen m =>
      simp only [Session.step, Request.step] at h
      by_cases hw : w = seen
      · simp [hw] at h
      · rw [if_neg hw] at h
        cases hn : next? m with
        | none =>
          rw [hn] at h
          cases h
          rfl
        | some k =>
          rw [hn] at h
          cases h
  | drain m d =>
    simp only [Session.step, Drain.step] at h
    by_cases hw : w = .owned
    · rw [if_pos hw] at h
      cases h
    · rw [if_neg hw] at h
      cases hn : next? d.yields with
      | none =>
        rw [hn] at h
        cases h
        rfl
      | some k =>
        rw [hn] at h
        cases h

/-- A writer's session leaves the readers of a word. -/
theorem Session.step_counts {s : Session} {w : Word} {m : Nat} {b : Bool} (h : w.Counts m b) :
    ∃ b', (s.step w).1.Counts m b' := by
  rcases s.step_cases w with ⟨s', hs, -⟩ | ⟨s', hs, -⟩ | ⟨f, hs⟩ | ⟨r, hs, -⟩ <;> rw [hs]
  · exact ⟨b, h⟩
  · exact ⟨true, h.raise⟩
  · exact ⟨b, h⟩
  · exact ⟨b, h⟩

namespace StripedLock

variable {n : Nat} {c : Nat → Nat} {l : StripedLock}

theorem Counted.step_writes (h : Counted n c l) {t : Task} (ht : t.Writes) :
    Counted n c (step l t).1 ∧ Apart (step l t).2.1 := by
  cases t with
  | enter i e m => cases ht
  | leave i => cases ht
  | block k s m =>
    have hput : Counted n c (l.put k (s.step (l.word k)).1) := h.put fun hk => by
      obtain ⟨b, hb⟩ := h.word k hk
      exact Session.step_counts hb
    simp only [step]
    rcases hs : s.step (l.word k) with ⟨w, s' | f | ⟨failures, yields⟩⟩ <;> rw [hs] at hput
    · exact ⟨hput, trivial⟩
    · obtain rfl := Session.step_fault hs
      refine ⟨hput, ?_⟩
      intro he
      cases he
    · dsimp only
      split
      · split
        · exact ⟨hput, trivial⟩
        · refine ⟨hput, ?_⟩
          intro he
          cases he
      · refine ⟨hput, ?_⟩
        intro he
        cases he
  | unblock k =>
    have hput : Counted n c (l.put k (l.word k).unblock.1) := h.put fun hk => by
      obtain ⟨b, hb⟩ := h.word k hk
      exact ⟨false, hb.lower⟩
    simp only [step]
    rcases hw : (l.word k).unblock with ⟨w, f | _⟩ <;> rw [hw] at hput
    · refine ⟨hput, ?_⟩
      intro hf
      have hfault : (l.word k).unblock.2 = .error .noReaders := by
        rw [hw]
        exact congrArg _ (Verdict.failed.inj hf)
      unfold Word.unblock at hfault
      split at hfault <;> cases hfault
    · refine ⟨hput, ?_⟩
      dsimp only
      split
      · exact trivial
      · intro he
        cases he

/-- A writer leaves the counts of readers alone, however far it gets. -/
theorem Counted.run_writes (h : Counted n c l) {t : Task} (ht : t.Writes) :
    Counted n c (Lock.run l t).1.1 ∧ Apart (Lock.run l t).2 := by
  refine alone_keeps (I := fun s : StripedLock × List Note => Counted n c s.1) (P := Apart) ?_ h ht
  intro s t hs ht
  exact hs.step_writes ht

end StripedLock

end BusyWait

namespace BusyWait.LockStep.Locks

open StripedLock (Task Counted Apart)

/-! ## What no operation of a writer touches -/

section
variable {L T : Type} [Lock L T]

theorem perform_block (s : State L T) (t : Thread) : s.perform t .block = s.block t none := rfl

theorem perform_write (s : State L T) (t : Thread) (g : String) : s.perform t (.write g) = s.block t (some g) := rfl

theorem registry_run (s : State L T) (t : Thread) (task : T) : (s.run t task).1.team.registry = s.team.registry := rfl

omit [Lock L T] in
theorem registry_hold (s : State L T) (t : Thread) (g : Option String) :
    (s.hold t g).team.registry = s.team.registry := by
  cases g <;> rfl

theorem registry_block (s : State L T) (t : Thread) (g : Option String) :
    (s.block t g).1.team.registry = s.team.registry := by
  have hr := registry_run s t (Lock.block s.lock)
  unfold State.block
  generalize s.run t (Lock.block s.lock) = e at hr
  obtain ⟨s', task | v, log⟩ := e
  · exact hr
  · cases v with
    | finished => exact (registry_hold s' t g).trans hr
    | _ => exact hr

theorem registry_advance (s : State L T) (w : Writer T) :
    (s.advance w).1.team.registry = s.team.registry := by
  have hr := registry_run s w.thread w.task
  unfold State.advance
  generalize s.run w.thread w.task = e at hr
  obtain ⟨s', task | v, log⟩ := e
  · exact hr
  · cases v with
    | finished => exact (registry_hold s' _ _).trans hr
    | _ => exact hr

theorem registry_advanceEach (ws : List (Writer T)) (s : State L T) (done : List Finished) :
    (advanceEach s done ws).1.team.registry = s.team.registry := by
  induction ws generalizing s done with
  | nil => rfl
  | cons w ws ih => exact (ih _ _).trans (registry_advance s w)

theorem registry_settle (s : State L T) (m : Nat) : (s.settle m).1.team.registry = s.team.registry := by
  induction m generalizing s with
  | zero => rfl
  | succ m ih => exact (ih s.advanceAll.1).trans (registry_advanceEach s.waiting { s with waiting := [] } [])

end

/-! ## Operations that are not for a reader -/

section
variable {n : Nat} {c : Nat → Nat} {s s' : State StripedLock Task} {t u : Thread} {i : Index} {op : Op}

/-- The words are in order and count so many readers, and who waits is a writer. -/
structure Tidy (n : Nat) (c : Nat → Nat) (s : State StripedLock Task) : Prop where
  counted : Counted n c s.lock
  writers : ∀ w ∈ s.waiting, w.task.Writes

theorem Tidy.same (h : Tidy n c s) (hl : s'.lock = s.lock) (hw : s'.waiting = s.waiting) : Tidy n c s' := by
  refine ⟨?_, ?_⟩
  · rw [hl]
    exact h.counted
  · rw [hw]
    exact h.writers

theorem Tidy.hold (h : Tidy n c s) (t : Thread) (g : Option String) : Tidy n c (s.hold t g) := by
  obtain ⟨hl, hw⟩ := lock_hold s t g
  exact h.same hl hw

theorem Tidy.run (h : Tidy n c s) (t : Thread) {task : Task} (ht : task.Writes) :
    Tidy n c (s.run t task).1 ∧ Apart (s.run t task).2.1 := by
  obtain ⟨hc, hp⟩ := h.counted.run_writes ht
  exact ⟨⟨hc, h.writers⟩, hp⟩

theorem Tidy.wait (h : Tidy n c s) {w : Writer Task} (hw : w.task.Writes) :
    Tidy n c { s with waiting := s.waiting ++ [w] } := by
  refine ⟨h.counted, ?_⟩
  intro v hv
  rcases List.mem_append.mp hv with hv | hv
  · exact h.writers v hv
  · rw [List.mem_singleton.mp hv]
    exact hw

/-- The reply of a writer is not that a release failed. -/
theorem reply_apart {p : Progress Task Verdict} (h : Apart p) : State.reply .done p ≠ .fault .noReaders := by
  rcases p with task | _ | _ | _ | f
  · exact nofun
  · exact nofun
  · exact nofun
  · exact nofun
  · intro hf
    exact h (congrArg _ (Reply.fault.inj hf))

theorem writerReply_ne (g : Option String) : State.writerReply g ≠ .fault .noReaders := by
  unfold State.writerReply
  split <;> exact nofun

theorem Tidy.block (h : Tidy n c s) (t : Thread) (g : Option String) :
    Tidy n c (s.block t g).1 ∧ (s.block t g).2.1 ≠ .fault .noReaders := by
  obtain ⟨h', hp⟩ := h.run t (show (Lock.block s.lock).Writes from trivial)
  unfold State.block
  generalize s.run t (Lock.block s.lock) = e at h' hp
  obtain ⟨s', task | v, log⟩ := e
  · refine ⟨h'.wait hp, ?_⟩
    intro he
    cases he
  · cases v with
    | finished => exact ⟨h'.hold t g, writerReply_ne g⟩
    | entered => exact ⟨h', nofun⟩
    | refused => exact ⟨h', nofun⟩
    | failed f => exact ⟨h', reply_apart hp⟩

theorem Tidy.unblock (h : Tidy n c s) (t : Thread) :
    Tidy n c (s.unblock t).1 ∧ (s.unblock t).2 ≠ .fault .noReaders := by
  obtain ⟨h', hp⟩ := h.run t (show (Lock.unblock s.lock).Writes from trivial)
  exact ⟨h', reply_apart hp⟩

theorem Tidy.advance (h : Tidy n c s) {w : Writer Task} (hw : w.task.Writes) : Tidy n c (s.advance w).1 := by
  obtain ⟨h', hp⟩ := h.run w.thread hw
  unfold State.advance
  generalize s.run w.thread w.task = e at h' hp
  obtain ⟨s', task | v, log⟩ := e
  · exact h'.wait hp
  · cases v with
    | finished => exact h'.hold _ _
    | entered => exact h'
    | refused => exact h'
    | failed f => exact h'

theorem Tidy.advanceEach (h : Tidy n c s) (ws : List (Writer Task)) (hws : ∀ w ∈ ws, w.task.Writes)
    (done : List Finished) : Tidy n c (advanceEach s done ws).1 := by
  induction ws generalizing s done with
  | nil => exact h
  | cons w ws ih =>
    obtain ⟨hw, hws⟩ := List.forall_mem_cons.mp hws
    exact ih (h.advance hw) hws _

theorem Tidy.settle (h : Tidy n c s) (m : Nat) : Tidy n c (s.settle m).1 := by
  induction m generalizing s with
  | zero => exact h
  | succ m ih =>
    refine ih (s := s.advanceAll.1) ?_
    have hnone : Tidy n c { s with waiting := [] } := ⟨h.counted, fun _ hw => absurd hw List.not_mem_nil⟩
    exact hnone.advanceEach s.waiting h.writers []

theorem readersReply_ne (l : StripedLock) : State.readersReply l.readers ≠ .fault .noReaders := by
  obtain ⟨hsum, hover⟩ := l.readers_total
  by_cases hlt : l.total < 2 ^ 32
  · obtain ⟨m, hm, -⟩ := hsum hlt
    rw [hm]
    exact nofun
  · rw [hover (Nat.le_of_not_lt hlt)]
    exact nofun

theorem stripeReaders_ne (ws : Array Word) (k : Nat) :
    State.readersReply (State.stripeReaders ws k) ≠ .fault .noReaders := by
  unfold State.stripeReaders
  cases ws[k]? <;> exact nofun

/-- What is not for a reader leaves the counts alone. -/
theorem Tidy.perform (h : Tidy n c s) (hop : s.served? t op = none) :
    Tidy n c (s.perform t op).1 ∧ (s.perform t op).2.1 ≠ .fault .noReaders := by
  cases op with
  | block =>
    rw [perform_block]
    exact h.block t none
  | write g =>
    rw [perform_write]
    exact h.block t (some g)
  | unblock => exact h.unblock t
  | drop g =>
    rcases hg : s.guard? t g with _ | ⟨v, name, _ | _⟩
    · simp only [State.perform, hg]
      refine ⟨h, ?_⟩
      intro he
      cases he
    · simp only [State.served?, hg] at hop
      cases hop
    · simp only [State.perform, hg]
      exact Tidy.unblock (s := { s with guards := s.guards.erase ⟨v, name, .write⟩ }) (h.same rfl rfl) t
  | formatGuard g f =>
    simp only [State.perform]
    cases s.guard? t g <;>
      · refine ⟨h, ?_⟩
        intro he
        cases he
  | readers => exact ⟨h, readersReply_ne s.lock⟩
  | readersAt k => exact ⟨h, stripeReaders_ne s.lock.words k⟩
  | isBlocked | debug alt | policy | stripeOf i | stripeCount | unknown =>
    refine ⟨h, ?_⟩
    intro he
    cases he
  | index | nextIndex | tally op | exit | ownStripe =>
    refine ⟨h.same rfl rfl, ?_⟩
    intro he
    cases he
  | _ => cases hop

end

/-! ## The index of a thread -/

section
variable {n : Nat} {s s' : State StripedLock Task} {t u : Thread} {i j : Index} {op : Op}

theorem own_of_kept (h : s.kept t = some i) : s.own t = i := by
  show (s.team.registry.get t).2 = i
  rw [Registry.get_of_kept h]

theorem kept_get_of_kept {r : Registry} (t : Thread) (h : r.kept.get? u = some i) :
    (r.get t).1.kept.get? u = some i := by
  unfold Registry.get
  cases ht : r.kept.get? t with
  | some j => exact h
  | none =>
    have hne : t ≠ u := by
      rintro rfl
      rw [ht] at h
      cases h
    show (r.kept.set t _).get? u = _
    rw [Table.get?_set, if_neg hne]
    exact h

theorem Drew.kept (hd : Drew s s' t) (h : s.kept u = some i) : s'.kept u = some i := by
  unfold State.kept at h ⊢
  rcases hd with hd | hd
  · rw [hd]
    exact h
  · rw [hd]
    exact kept_get_of_kept t h

theorem drew_consider (s : State StripedLock Task) (t : Thread) (op : Op) : Drew s (s.consider t op).1 t := by
  cases op with
  | leave k =>
    unfold State.consider
    by_cases hw : s.waiting.isEmpty = true
    · simp only [hw, ↓reduceIte]
      exact .inl rfl
    · simp only [hw]
      exact .inr rfl
  | _ => exact .inl rfl

theorem registry_begun (s : State StripedLock Task) (t : Thread) (op : Op) :
    (s.begun t op).team.registry = s.team.registry := by
  unfold State.begun
  split <;> rfl

theorem drew_ready (s : State StripedLock Task) (t : Thread) (op : Op) : Drew s (s.ready t op) t := by
  have h := drew_consider s t op
  unfold Drew State.ready
  rw [registry_begun]
  exact h

theorem perform_kept (hs : s.lock.words.size = n + 1) (h : s.kept u = some i) (hop : op = .exit → u ≠ t) :
    (s.perform t op).1.kept u = some i := by
  cases hserved : s.served? t op with
  | some j =>
    obtain ⟨s', hrun, hs'⟩ := perform_served hs hserved
    rw [hrun]
    exact hs'.drew.kept h
  | none =>
    have still : ∀ {s' : State StripedLock Task}, s'.team.registry = s.team.registry → s'.kept u = some i :=
      fun hr => Drew.kept (t := t) (.inl hr) h
    have taken : ∀ {s' : State StripedLock Task},
        s'.team.registry = (s.team.registry.get t).1 → s'.kept u = some i :=
      fun hr => Drew.kept (t := t) (.inr hr) h
    cases op with
    | block =>
      rw [perform_block]
      exact still (registry_block s t none)
    | write g =>
      rw [perform_write]
      exact still (registry_block s t (some g))
    | drop g =>
      rcases hg : s.guard? t g with _ | ⟨v, name, _ | _⟩
      · simp only [State.perform, hg]
        exact h
      · simp only [State.served?, hg] at hserved
        cases hserved
      · simp only [State.perform, hg]
        exact still rfl
    | formatGuard g f => cases hg : s.guard? t g <;> simp only [State.perform, hg] <;> exact h
    | index => exact taken rfl
    | ownStripe => exact taken rfl
    | tally op => cases op <;> exact h
    | exit =>
      show (s.team.exit t).1.registry.kept.get? u = some i
      unfold Team.exit
      split
      · show (s.team.registry.kept.erase t).get? u = some i
        rw [Table.get?_erase, if_neg (Ne.symm (hop rfl))]
        exact h
      · exact h
    | _ => first | exact h | cases hserved

theorem attempt_kept (strict : Bool) (h : s.kept u = some i) (hop : op = .exit → u ≠ t) :
    (s.attemptOf strict t op).1.kept u = some i := by
  obtain ⟨n, hs⟩ := Nat.exists_eq_succ_of_ne_zero (Nat.pos_iff_ne_zero.mp s.lock.pos)
  rcases attemptOf_cases strict s t op with ⟨s', r, -, hrun, rfl | rfl⟩ | ⟨-, hrun⟩
  · rw [hrun]
    exact h
  · rw [hrun]
    exact (drew_consider s t op).kept h
  · rw [hrun]
    exact perform_kept (by rw [(s.alike_ready t op).lock]; exact hs) ((drew_ready s t op).kept h) hop

end

end BusyWait.LockStep.Locks
